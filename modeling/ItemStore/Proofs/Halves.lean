import ItemStore.Proofs.Reading
import ItemStore.Proofs.Binding

/-!
# What the halves of a query say

Queries are joined half by half, so a query that is written as a tree of predicates keeps,
in its key half, the tree without the predicates that filter and, in its filter half, the
tree without those that select by key.  Where both halves are sent as one condition, it is
the conjunction of the two restricted trees.  That is the tree as it was written if no
disjunction has predicates of both kinds beneath it, and only then.

The text that is sent is read as one tree.  Its atoms say, through the names and the values
of the request, the predicates that select by key and then those that filter, so the truth
of the text is one of the predicates and not only of places in a row.

## Main definitions

* `Logic.restrict` — a tree without the atoms that fail a test.
* `Logic.Separated` — no disjunction has atoms of both kinds beneath it.
* `Predicate` — the predicates on attributes; `Logic.query` the query of a tree of them.
* `Logic.sorted` — the predicates of a tree, those that select by key first.
* `Query.Sent` — the expression that a write or a scan sends for a query, and the request.

## Main results

* `Logic.halves_eq_eval`, `Logic.exists_halves_ne` — when the restricted trees together
  say what the tree says.
* `Logic.condition_query` — what is sent for a query is the conjunction of its halves.
* `Query.Sent.compiled` — it is sent compiled, with what its placeholders stand for.
* `Logic.eval_sent` — the text is the conjunction of the halves as well.
-/

namespace ItemStore

open Grammar

/-! ### Trees with atoms of two kinds -/

namespace Logic

variable {α : Type}

/-- The tree without the atoms that fail a test, unless nothing is left; a connective with
one side left is that side. -/
def restrict (keep : α → Bool) : Logic α → Option (Logic α)
  | .atom a => if keep a then some (.atom a) else none
  | .joined connective left right =>
    match left.restrict keep, right.restrict keep with
    | some l, some r => some (.joined connective l r)
    | some l, none => some l
    | none, r => r

/-- No disjunction has atoms of both kinds beneath it. -/
def Separated (kind : α → Bool) : Logic α → Prop
  | .atom _ => True
  | .joined .and left right => left.Separated kind ∧ right.Separated kind
  | .joined .or left right =>
    ∃ k, ∀ a ∈ left.atoms ++ right.atoms, kind a = k

/-- The truth of what is left of a tree; nothing is true. -/
def holds (keep : α → Bool) (truth : α → Bool) (t : Logic α) : Bool :=
  (t.restrict keep).all (eval truth)

/-- The truth of the atoms of one kind and, on its own, of those of the other. -/
def halves (kind : α → Bool) (truth : α → Bool) (t : Logic α) : Bool :=
  t.holds kind truth && t.holds (fun a => !kind a) truth

variable {kind keep truth : α → Bool} {t left right : Logic α}

theorem atoms_ne_nil (t : Logic α) : t.atoms ≠ [] := by
  induction t with
  | atom a => simp [atoms]
  | joined connective left right ihl _ => simp [atoms, ihl]

/-- Nothing is left if no atom passes the test. -/
theorem restrict_eq_none_iff : t.restrict keep = none ↔ ∀ a ∈ t.atoms, keep a = false := by
  induction t with
  | atom a => simp [restrict, atoms]
  | joined connective left right ihl ihr =>
    have hboth : (joined connective left right).restrict keep = none ↔
        left.restrict keep = none ∧ right.restrict keep = none := by
      rw [restrict]
      cases left.restrict keep <;> cases right.restrict keep <;> simp
    rw [hboth, ihl, ihr, atoms]
    simp [or_imp, forall_and]

theorem exists_restrict_eq_some (h : ∃ a ∈ t.atoms, keep a = true) :
    ∃ u, t.restrict keep = some u := by
  obtain ⟨a, ha, hkeep⟩ := h
  cases hu : t.restrict keep with
  | none => simp [restrict_eq_none_iff.mp hu a ha] at hkeep
  | some u => exact ⟨u, rfl⟩

/-- The atoms that are left are those that pass the test. -/
theorem atoms_restrict {u : Logic α} (h : t.restrict keep = some u) :
    u.atoms = t.atoms.filter keep := by
  induction t generalizing u with
  | atom a =>
    rw [restrict] at h
    split at h
    · next ha =>
      cases h
      simp [atoms, ha]
    · cases h
  | joined connective left right ihl ihr =>
    rw [atoms, List.filter_append]
    rw [restrict] at h
    cases hl : left.restrict keep with
    | none =>
      have hnil : left.atoms.filter keep = [] := by
        simpa using restrict_eq_none_iff.mp hl
      rw [hl] at h
      rw [hnil, List.nil_append, ihr h]
    | some l =>
      cases hr : right.restrict keep with
      | none =>
        have hnil : right.atoms.filter keep = [] := by
          simpa using restrict_eq_none_iff.mp hr
        rw [hl, hr] at h
        rw [hnil, List.append_nil, ihl (hl.trans h)]
      | some r =>
        rw [hl, hr] at h
        cases h
        rw [atoms, ihl hl, ihr hr]

theorem flatMap_atoms_restrict (keep : α → Bool) (t : Logic α) :
    (t.restrict keep).toList.flatMap atoms = t.atoms.filter keep := by
  cases h : t.restrict keep with
  | none => simpa using restrict_eq_none_iff.mp h
  | some u => simpa using atoms_restrict h

/-- The truth of a tree depends on that of its atoms only. -/
theorem eval_congr {truth' : α → Bool} (h : ∀ a ∈ t.atoms, truth a = truth' a) :
    t.eval truth = t.eval truth' := by
  induction t with
  | atom a => exact h a (by simp [atoms])
  | joined connective left right ihl ihr =>
    rw [eval, eval, ihl fun a ha => h a (List.mem_append_left _ ha),
      ihr fun a ha => h a (List.mem_append_right _ ha)]

/-- Where all atoms agree, so does the tree. -/
theorem eval_eq_of_forall {b : Bool} (h : ∀ a ∈ t.atoms, truth a = b) : t.eval truth = b := by
  induction t with
  | atom a => exact h a (by simp [atoms])
  | joined connective left right ihl ihr =>
    rw [eval, ihl fun a ha => h a (List.mem_append_left _ ha),
      ihr fun a ha => h a (List.mem_append_right _ ha)]
    cases connective <;> cases b <;> rfl

theorem holds_congr {truth' : α → Bool} (h : ∀ a ∈ t.atoms, truth a = truth' a) :
    t.holds keep truth = t.holds keep truth' := by
  unfold holds
  cases hu : t.restrict keep with
  | none => rfl
  | some u =>
    refine eval_congr fun a ha => h a ?_
    rw [atoms_restrict hu] at ha
    exact List.mem_of_mem_filter ha

/-- Where all atoms that pass the test agree, so does what is left. -/
theorem holds_eq_of_forall {b : Bool} (hsome : ∃ a ∈ t.atoms, keep a = true)
    (h : ∀ a ∈ t.atoms, keep a = true → truth a = b) : t.holds keep truth = b := by
  obtain ⟨u, hu⟩ := exists_restrict_eq_some hsome
  rw [holds, hu]
  refine eval_eq_of_forall fun a ha => ?_
  rw [atoms_restrict hu, List.mem_filter] at ha
  exact h a ha.1 ha.2

theorem holds_and :
    (joined .and left right).holds keep truth =
      (left.holds keep truth && right.holds keep truth) := by
  unfold holds
  rw [restrict]
  cases left.restrict keep <;> cases right.restrict keep <;> simp [eval, Connective.eval]

/-- A disjunction of which both sides are left. -/
theorem holds_or (hl : ∃ a ∈ left.atoms, keep a = true) (hr : ∃ a ∈ right.atoms, keep a = true) :
    (joined .or left right).holds keep truth =
      (left.holds keep truth || right.holds keep truth) := by
  obtain ⟨l, hl⟩ := exists_restrict_eq_some hl
  obtain ⟨r, hr⟩ := exists_restrict_eq_some hr
  simp [holds, restrict, hl, hr, eval, Connective.eval]

theorem holds_or_comm :
    (joined .or left right).holds keep truth = (joined .or right left).holds keep truth := by
  unfold holds
  rw [restrict, restrict]
  cases left.restrict keep <;> cases right.restrict keep <;>
    simp [eval, Connective.eval, Bool.or_comm]

/-- A tree of which every atom passes the test is left as it is. -/
theorem restrict_eq_self (h : ∀ a ∈ t.atoms, keep a = true) : t.restrict keep = some t := by
  induction t with
  | atom a => simp [restrict, h a (by simp [atoms])]
  | joined connective left right ihl ihr =>
    rw [restrict, ihl fun a ha => h a (List.mem_append_left _ ha),
      ihr fun a ha => h a (List.mem_append_right _ ha)]

theorem halves_of_one_kind {k : Bool} (h : ∀ a ∈ t.atoms, kind a = k) :
    t.halves kind truth = t.eval truth := by
  -- One half is the whole tree, and of the other nothing is left.
  unfold halves holds
  cases k with
  | false =>
    have hnot : t.restrict (fun a => !kind a) = some t := restrict_eq_self (by simpa using h)
    rw [restrict_eq_none_iff.mpr h, hnot]
    simp
  | true =>
    have hnot : t.restrict (fun a => !kind a) = none := restrict_eq_none_iff.mpr (by simpa using h)
    rw [restrict_eq_self h, hnot]
    simp

/-- The halves of a separated tree together say what the tree says. -/
theorem halves_eq_eval (h : t.Separated kind) : t.halves kind truth = t.eval truth := by
  induction t with
  | atom a =>
    refine halves_of_one_kind (k := kind a) ?_
    simp [atoms]
  | joined connective left right ihl ihr =>
    cases connective with
    | and =>
      have hl := ihl h.1
      have hr := ihr h.2
      unfold halves at hl hr ⊢
      rw [holds_and, holds_and, eval, ← hl, ← hr, Connective.eval]
      ac_rfl
    | or =>
      obtain ⟨k, hk⟩ := h
      exact halves_of_one_kind hk

/-! ### Trees that are not separated -/

theorem separated_of_one_kind {k : Bool} (h : ∀ a ∈ t.atoms, kind a = k) : t.Separated kind := by
  induction t with
  | atom a => trivial
  | joined connective left right ihl ihr =>
    cases connective with
    | and =>
      exact ⟨ihl fun a ha => h a (List.mem_append_left _ ha),
        ihr fun a ha => h a (List.mem_append_right _ ha)⟩
    | or => exact ⟨k, h⟩

/-- A tree that is not separated has atoms of both kinds. -/
theorem exists_mem_of_not_separated (h : ¬t.Separated kind) (k : Bool) :
    ∃ a ∈ t.atoms, kind a = k := by
  by_contra hnone
  refine h (separated_of_one_kind (k := !k) ?_)
  intro a ha
  have hne : kind a ≠ k := fun heq => hnone ⟨a, ha, heq⟩
  cases k <;> simpa using hne

/-- Two assignments to trees without a common atom are parts of one. -/
theorem exists_glue (hnodup : (left.atoms ++ right.atoms).Nodup) (f g : α → Bool) :
    ∃ truth : α → Bool, (∀ a ∈ left.atoms, truth a = f a) ∧ ∀ a ∈ right.atoms, truth a = g a := by
  classical
  refine ⟨fun a => if a ∈ left.atoms then f a else g a, ?_, ?_⟩
  · intro a ha
    simp [ha]
  · intro a ha
    have hnot : a ∉ left.atoms := by
      intro hl
      exact (List.nodup_append.mp hnodup).2.2 a hl a ha rfl
    simp [hnot]

theorem halves_congr {truth' : α → Bool} (h : ∀ a ∈ t.atoms, truth a = truth' a) :
    t.halves kind truth = t.halves kind truth' := by
  rw [halves, halves, holds_congr h, holds_congr h]

theorem halves_and :
    (joined .and left right).halves kind truth =
      (left.halves kind truth && right.halves kind truth) := by
  unfold halves
  rw [holds_and, holds_and]
  ac_rfl

/-- Where all atoms are true, so are the halves. -/
theorem halves_eq_true (h : ∀ a ∈ t.atoms, truth a = true) : t.halves kind truth = true := by
  have hholds : ∀ keep : α → Bool, t.holds keep truth = true := by
    intro keep
    by_cases hsome : ∃ a ∈ t.atoms, keep a = true
    · exact holds_eq_of_forall hsome fun a ha _ => h a ha
    · have hnone : t.restrict keep = none := restrict_eq_none_iff.mpr (by simpa using hsome)
      simp [holds, hnone]
  rw [halves, hholds, hholds]
  rfl

/-- Where the atoms of one kind are false, so are the halves. -/
theorem halves_eq_false {k : Bool} (hsome : ∃ a ∈ t.atoms, kind a = k)
    (h : ∀ a ∈ t.atoms, kind a = k → truth a = false) : t.halves kind truth = false := by
  unfold halves
  cases k with
  | false =>
    have hfalse : t.holds (fun a => !kind a) truth = false :=
      holds_eq_of_forall (by simpa using hsome) (by simpa using h)
    rw [hfalse, Bool.and_false]
  | true =>
    rw [holds_eq_of_forall hsome h]
    simp

/-- A side of a disjunction that is false does not count, whatever is left of it. -/
theorem holds_or_left (hl : ∃ a ∈ left.atoms, keep a = true)
    (hr : ∀ a ∈ right.atoms, truth a = false) :
    (joined .or left right).holds keep truth = left.holds keep truth := by
  by_cases hsome : ∃ a ∈ right.atoms, keep a = true
  · rw [holds_or hl hsome, holds_eq_of_forall hsome fun a ha _ => hr a ha, Bool.or_false]
  · have hnone : right.restrict keep = none := restrict_eq_none_iff.mpr (by simpa using hsome)
    unfold holds
    rw [restrict, hnone]
    cases left.restrict keep with
    | none => rfl
    | some l => rfl

theorem halves_or_comm :
    (joined .or left right).halves kind truth = (joined .or right left).halves kind truth := by
  unfold halves
  congr 1
  · exact holds_or_comm
  · exact holds_or_comm

theorem eval_or_comm : (joined .or left right).eval truth = (joined .or right left).eval truth := by
  rw [eval, eval]
  exact Bool.or_comm _ _

/-- A disjunction of which one side has a kind that the other lacks: where the other side alone
is true, the half of that kind is false. -/
theorem exists_halves_ne_of_absent (hnodup : (left.atoms ++ right.atoms).Nodup) {k : Bool}
    (hsome : ∃ a ∈ left.atoms, kind a = k) (hnone : ∀ a ∈ right.atoms, kind a ≠ k) :
    ∃ truth, (joined .or left right).halves kind truth ≠ (joined .or left right).eval truth := by
  obtain ⟨a, ha, hk⟩ := hsome
  obtain ⟨truth, hfalse, htrue⟩ := exists_glue hnodup (fun _ => false) (fun _ => true)
  refine ⟨truth, ?_⟩
  have hhalves : (joined .or left right).halves kind truth = false := by
    refine halves_eq_false ⟨a, List.mem_append_left _ ha, hk⟩ ?_
    intro b hb hkb
    rcases List.mem_append.mp hb with hb | hb
    · exact hfalse b hb
    · exact absurd hkb (hnone b hb)
  rw [hhalves, eval, eval_eq_of_forall htrue]
  simp [Connective.eval]

/-- A disjunction of which both sides have both kinds: where one half of each side is true, and
not the same half, both halves of the disjunction are. -/
theorem exists_halves_ne_of_present (hnodup : (left.atoms ++ right.atoms).Nodup)
    (hl : left.Separated kind) (hr : right.Separated kind)
    (hboth : ∀ k, (∃ a ∈ left.atoms, kind a = k) ∧ ∃ a ∈ right.atoms, kind a = k) :
    ∃ truth, (joined .or left right).halves kind truth ≠ (joined .or left right).eval truth := by
  obtain ⟨truth, hlt, hrt⟩ := exists_glue hnodup kind (fun a => !kind a)
  refine ⟨truth, ?_⟩
  have hevall : left.eval truth = false := by
    rw [← halves_eq_eval hl]
    exact halves_eq_false (hboth false).1 fun a ha hk => (hlt a ha).trans hk
  have hevalr : right.eval truth = false := by
    rw [← halves_eq_eval hr]
    refine halves_eq_false (hboth true).2 fun a ha hk => ?_
    rw [hrt a ha, hk]
    rfl
  have hkey : left.holds kind truth = true :=
    holds_eq_of_forall (hboth true).1 fun a ha hk => (hlt a ha).trans hk
  have hrest : right.holds (fun a => !kind a) truth = true :=
    holds_eq_of_forall (by simpa using (hboth false).2) fun a ha hk => (hrt a ha).trans hk
  rw [halves, holds_or (hboth true).1 (hboth true).2,
    holds_or (by simpa using (hboth false).1) (by simpa using (hboth false).2), hkey, hrest,
    eval, hevall, hevalr]
  simp [Connective.eval]

/-- A disjunction with atoms of both kinds, of which both sides are separated. -/
theorem exists_halves_ne_or (hnodup : (left.atoms ++ right.atoms).Nodup)
    (hl : left.Separated kind) (hr : right.Separated kind)
    (hmixed : ¬(joined .or left right).Separated kind) :
    ∃ truth, (joined .or left right).halves kind truth ≠ (joined .or left right).eval truth := by
  have hkinds := exists_mem_of_not_separated hmixed
  by_cases hleft : ∃ k, (∃ a ∈ left.atoms, kind a = k) ∧ ∀ a ∈ right.atoms, kind a ≠ k
  · obtain ⟨k, hsome, hnone⟩ := hleft
    exact exists_halves_ne_of_absent hnodup hsome hnone
  by_cases hright : ∃ k, (∃ a ∈ right.atoms, kind a = k) ∧ ∀ a ∈ left.atoms, kind a ≠ k
  · obtain ⟨k, hsome, hnone⟩ := hright
    obtain ⟨truth, htruth⟩ :=
      exists_halves_ne_of_absent (List.nodup_append_comm.mp hnodup) hsome hnone
    exact ⟨truth, by rwa [halves_or_comm, eval_or_comm]⟩
  · refine exists_halves_ne_of_present hnodup hl hr fun k => ?_
    obtain ⟨a, ha, hk⟩ := hkinds k
    rcases List.mem_append.mp ha with ha | ha
    · refine ⟨⟨a, ha, hk⟩, ?_⟩
      by_contra hno
      exact hleft ⟨k, ⟨a, ha, hk⟩, fun b hb hkb => hno ⟨b, hb, hkb⟩⟩
    · refine ⟨?_, ⟨a, ha, hk⟩⟩
      by_contra hno
      exact hright ⟨k, ⟨a, ha, hk⟩, fun b hb hkb => hno ⟨b, hb, hkb⟩⟩

/-- A disjunction of which one side is not separated: where the other side is false, that side
decides. -/
theorem exists_halves_ne_left (hnodup : (left.atoms ++ right.atoms).Nodup)
    (hl : ¬left.Separated kind) (h : ∃ truth, left.halves kind truth ≠ left.eval truth) :
    ∃ truth, (joined .or left right).halves kind truth ≠ (joined .or left right).eval truth := by
  obtain ⟨f, hf⟩ := h
  obtain ⟨truth, hleft, hfalse⟩ := exists_glue hnodup f (fun _ => false)
  have hkinds := exists_mem_of_not_separated hl
  refine ⟨truth, ?_⟩
  rw [halves, holds_or_left (hkinds true) hfalse,
    holds_or_left (by simpa using hkinds false) hfalse, ← halves, halves_congr hleft,
    eval, eval_eq_of_forall hfalse, eval_congr hleft]
  simpa [Connective.eval] using hf

/-- The halves of a tree that is not separated do not say what the tree says. -/
theorem exists_halves_ne (hnodup : t.atoms.Nodup) (h : ¬t.Separated kind) :
    ∃ truth, t.halves kind truth ≠ t.eval truth := by
  induction t with
  | atom a => exact absurd trivial h
  | joined connective left right ihl ihr =>
    have hnodupl := (List.nodup_append.mp hnodup).1
    have hnodupr := (List.nodup_append.mp hnodup).2.1
    cases connective with
    | and =>
      -- Where one side of a conjunction is true, the other decides.
      by_cases hl : left.Separated kind
      · obtain ⟨g, hg⟩ := ihr hnodupr fun hr => h ⟨hl, hr⟩
        obtain ⟨truth, htrue, hright⟩ := exists_glue hnodup (fun _ => true) g
        refine ⟨truth, ?_⟩
        rw [halves_and, halves_eq_true htrue, halves_congr hright, eval, eval_eq_of_forall htrue,
          eval_congr hright]
        simpa [Connective.eval] using hg
      · obtain ⟨f, hf⟩ := ihl hnodupl hl
        obtain ⟨truth, hleft, htrue⟩ := exists_glue hnodup f (fun _ => true)
        refine ⟨truth, ?_⟩
        rw [halves_and, halves_eq_true htrue, halves_congr hleft, eval, eval_eq_of_forall htrue,
          eval_congr hleft]
        simpa [Connective.eval] using hf
    | or =>
      by_cases hl : left.Separated kind
      · by_cases hr : right.Separated kind
        · exact exists_halves_ne_or hnodup hl hr h
        · obtain ⟨truth, htruth⟩ :=
            exists_halves_ne_left (List.nodup_append_comm.mp hnodup) hr (ihr hnodupr hr)
          exact ⟨truth, by rwa [halves_or_comm, eval_or_comm]⟩
      · exact exists_halves_ne_left hnodup hl (ihl hnodupl hl)

end Logic

/-! ### Predicates -/

/-- A predicate on an attribute. -/
inductive Predicate
  | compare (a : Attribute) (comparator : Comparator) (operand : Operand)
  | between (a : Attribute) (low high : Operand)
  | beginsWith (a : Attribute) (lead : Operand)
  | contains (a : Attribute) (operand : Operand)
  | isPresent (a : Attribute)
  | isMissing (a : Attribute)
  | hasType (a : Attribute) (type : AttributeType)
  | among (a : Attribute) (candidates : List Operand)
  | compareSize (a : Attribute) (comparator : Comparator) (operand : Operand)
  | sizeBetween (a : Attribute) (low high : Operand)

namespace Predicate

/-- The query of a predicate. -/
def query : Predicate → Query
  | .compare a comparator operand => a.compare comparator operand
  | .between a low high => a.between low high
  | .beginsWith a lead => a.beginsWith lead
  | .contains a operand => a.contains operand
  | .isPresent a => a.isPresent
  | .isMissing a => a.isMissing
  | .hasType a type => a.hasType type
  | .among a candidates => a.among candidates
  | .compareSize a comparator operand => a.compareSize comparator operand
  | .sizeBetween a low high => a.sizeBetween low high

/-- The condition of a predicate. -/
def condition : Predicate → Condition
  | .compare a comparator operand => .compare a.operand comparator operand
  | .between a low high => .between a.operand low high
  | .beginsWith a lead => .beginsWith a.reference lead
  | .contains a operand => .contains a.reference operand
  | .isPresent a => .exists a.reference
  | .isMissing a => .notExists a.reference
  | .hasType a type => .hasType a.reference type
  | .among a candidates => .among a.operand candidates
  | .compareSize a comparator operand => .compare a.size comparator operand
  | .sizeBetween a low high => .between a.size low high

/-- Whether a predicate selects by key. -/
def isKey : Predicate → Bool
  | .compare a comparator _ => a.kind = .key && comparator ≠ .notEqual
  | .between a _ _ => a.kind = .key
  | .beginsWith a _ => a.kind = .key
  | _ => false

/-- A predicate is in one half of its query. -/
theorem query_eq (p : Predicate) :
    p.query = if p.isKey then .ofKey p.condition else .ofFilter p.condition := by
  have hkind : ∀ (a : Attribute) (c : Condition),
      a.kind.query c = if a.kind = .key then .ofKey c else .ofFilter c := by
    intro a c
    cases a.kind <;> rfl
  cases p with
  | compare a comparator operand =>
    simp only [query, Attribute.compare, isKey, condition, hkind]
    by_cases hne : comparator = .notEqual
    · simp [hne]
    · simp [hne]
  | between a low high => simp [query, Attribute.between, isKey, condition, hkind]
  | beginsWith a lead => simp [query, Attribute.beginsWith, isKey, condition, hkind]
  | _ => rfl

theorem isJoined_condition (p : Predicate) : p.condition.isJoined = false := by
  cases p <;> rfl

end Predicate

/-! ### Queries of trees -/

namespace Logic

/-- The query of a tree of predicates. -/
def query : Logic Predicate → Query
  | .atom p => p.query
  | .joined connective left right => .joined connective left.query right.query

/-- The condition of a tree of predicates, as it is written. -/
def condition : Logic Predicate → Condition
  | .atom p => p.condition
  | .joined connective left right => .joined connective left.condition right.condition

/-- The halves of the query of a tree are the tree without the predicates of the other
kind. -/
theorem query_eq (t : Logic Predicate) :
    t.query = ⟨(t.restrict Predicate.isKey).map condition,
      (t.restrict fun p => !p.isKey).map condition⟩ := by
  induction t with
  | atom p =>
    rw [query, Predicate.query_eq, restrict, restrict]
    cases p.isKey <;> rfl
  | joined connective left right ihl ihr =>
    rw [query, ihl, ihr, Query.joined, restrict, restrict]
    congr 1
    · cases left.restrict Predicate.isKey <;> cases right.restrict Predicate.isKey <;> rfl
    · cases left.restrict fun p => !p.isKey <;> cases right.restrict fun p => !p.isKey <;> rfl

theorem eval_condition (truth : Condition → Bool) (t : Logic Predicate) :
    t.condition.eval truth = t.eval fun p => truth p.condition := by
  induction t with
  | atom p =>
    rw [condition, eval, ← Condition.eval_logic,
      Condition.logic_of_not_isJoined p.isJoined_condition, eval]
  | joined connective left right ihl ihr => rw [condition, Condition.eval, ihl, ihr, eval]

/-- The atoms of the condition of a tree are the conditions of its predicates. -/
theorem atoms_condition (t : Logic Predicate) :
    t.condition.logic.atoms = t.atoms.map Predicate.condition := by
  induction t with
  | atom p =>
    rw [condition, Condition.logic_of_not_isJoined p.isJoined_condition, atoms, atoms,
      List.map_singleton]
  | joined connective left right ihl ihr =>
    rw [condition, Condition.logic, atoms, atoms, List.map_append, ihl, ihr]

/-- The predicates of a tree, those that select by key before those that filter. -/
def sorted (t : Logic Predicate) : List Predicate :=
  t.atoms.filter Predicate.isKey ++ t.atoms.filter fun p => !p.isKey

/-- What is sent for a query is the conjunction of its halves. -/
theorem condition_query (t : Logic Predicate) :
    ∃ c, t.query.condition = .ok c ∧ c.logic.atoms = t.sorted.map Predicate.condition ∧
      ∀ truth, c.eval truth = t.halves Predicate.isKey fun p => truth p.condition := by
  -- Every predicate is kept in one of the halves, so not both can be missing.
  have hsome : t.restrict Predicate.isKey ≠ none ∨ (t.restrict fun p => !p.isKey) ≠ none := by
    by_contra hnone
    obtain ⟨hkey, hfilter⟩ : t.restrict Predicate.isKey = none ∧
        (t.restrict fun p => !p.isKey) = none := by simpa using hnone
    obtain ⟨p, hp⟩ := List.exists_mem_of_ne_nil _ t.atoms_ne_nil
    have hp' := restrict_eq_none_iff.mp hfilter p hp
    rw [restrict_eq_none_iff.mp hkey p hp] at hp'
    cases hp'
  have hsorted : t.sorted = (t.restrict Predicate.isKey).toList.flatMap atoms ++
      (t.restrict fun p => !p.isKey).toList.flatMap atoms := by
    rw [sorted, flatMap_atoms_restrict, flatMap_atoms_restrict]
  rw [query_eq, Query.condition, hsorted]
  unfold halves holds
  cases hkey : t.restrict Predicate.isKey with
  | none =>
    cases hfilter : t.restrict fun p => !p.isKey with
    | none => simp [hkey, hfilter] at hsome
    | some u =>
      refine ⟨u.condition, rfl, by simp [atoms_condition], fun truth => ?_⟩
      simp [eval_condition]
  | some u =>
    cases hfilter : t.restrict fun p => !p.isKey with
    | none =>
      refine ⟨u.condition, rfl, by simp [atoms_condition], fun truth => ?_⟩
      simp [eval_condition]
    | some v =>
      refine ⟨.joined .and u.condition v.condition, rfl, ?_, fun truth => ?_⟩
      · simp [Condition.logic, atoms, atoms_condition]
      · simp [Condition.eval, Connective.eval, eval_condition]

end Logic

/-! ### What is sent -/

/-- The expression that a write sends for its condition, or a scan for its filter, with the
request that it stands in; a missing one counts as the empty row. -/
inductive Query.Sent (q : Query) : Request → List Symbol → Prop
  | putItem {p : PutItem} {s : Schema} {r : Request} :
    p.options.condition = some q → p.request s = .ok r → Sent q r (r.condition.getD [])
  | updateItem {u : UpdateItem} {s : Schema} {r : Request} :
    u.options.condition = some q → u.request s = .ok r → Sent q r (r.condition.getD [])
  | deleteItem {d : DeleteItem} {s : Schema} {r : Request} :
    d.options.condition = some q → d.request s = .ok r → Sent q r (r.condition.getD [])
  | scan {x : ScanTable} {s : Schema} {r : Request} :
    x.filter = some q → x.request s = .ok r → Sent q r (r.filter.getD [])

theorem WriteOptions.runFrom_compile_eq_ok {o : WriteOptions} {q : Query}
    (ho : o.condition = some q) {n m : Nat} {g : Option Fragment}
    (h : Compile.runFrom o.compile n = (.ok g, m)) :
    ∃ c f, q.condition = .ok c ∧ Compile.runFrom c.compile n = (.ok f, m) ∧ g = some f := by
  rw [WriteOptions.compile, ho] at h
  simp only at h
  cases hc : q.condition with
  | error e =>
    rw [hc] at h
    exact (Compile.runFrom_throw_eq_ok.mp h).elim
  | ok c =>
    rw [hc, Compile.runFrom_bind_eq_ok] at h
    obtain ⟨f, l, hf, hg⟩ := h
    obtain ⟨rfl, rfl⟩ := Compile.runFrom_pure_eq_ok.mp hg
    exact ⟨c, f, rfl, hf, rfl⟩

theorem Query.condition_of_filterCondition {q : Query} {c : Condition}
    (h : q.filterCondition = .ok c) : q.condition = .ok c := by
  unfold Query.filterCondition at h
  split at h
  · exact h
  · cases h

/-- What is sent for a query is its condition, compiled, with what its placeholders stand for. -/
theorem Query.Sent.compiled {q : Query} {r : Request} {row : List Symbol} (h : q.Sent r row) :
    ∃ c f n m, q.condition = .ok c ∧ Compile.runFrom c.compile n = (.ok f, m) ∧
      row = f.symbols ∧ Piece.Sends (r.writtenNames?.getD []) (r.writtenValues?.getD []) f := by
  cases h with
  | @putItem p s _ ho hr =>
    obtain ⟨g, hresult, hbound⟩ := bind_eq_ok.mp hr
    obtain rfl := pure_eq_ok.mp hbound
    obtain ⟨m, hg⟩ := Compile.result_eq_ok.mp hresult
    obtain ⟨c, f, hc, hf, rfl⟩ := WriteOptions.runFrom_compile_eq_ok ho hg
    have hfragments : (Call.putItem p).fragments s = .ok [f] :=
      bind_eq_ok.mpr ⟨some f, hresult, rfl⟩
    have hsends := Call.sends_of_request (c := .putItem p) hr hfragments
    exact ⟨c, f, 0, m, hc, hf, rfl, hsends f (by simp)⟩
  | @updateItem u s _ ho hr =>
    obtain ⟨key, -, hrest⟩ := bind_eq_ok.mp hr
    obtain ⟨⟨update, g⟩, hresult, hbound⟩ := bind_eq_ok.mp hrest
    obtain rfl := pure_eq_ok.mp hbound
    obtain ⟨m, hrun⟩ := Compile.result_eq_ok.mp hresult
    simp only [UpdateItem.compile, Compile.runFrom_bind_eq_ok, Compile.runFrom_pure_eq_ok] at hrun
    obtain ⟨update', l, -, g', j, hg, heq, rfl⟩ := hrun
    cases heq
    obtain ⟨c, f, hc, hf, rfl⟩ := WriteOptions.runFrom_compile_eq_ok ho hg
    have hfragments : (Call.updateItem u).fragments s = .ok [f, update] :=
      bind_eq_ok.mpr ⟨(update, some f), hresult, rfl⟩
    have hsends := Call.sends_of_request (c := .updateItem u) hr hfragments
    exact ⟨c, f, l, m, hc, hf, rfl, hsends f (by simp)⟩
  | @deleteItem d s _ ho hr =>
    obtain ⟨key, -, hrest⟩ := bind_eq_ok.mp hr
    obtain ⟨g, hresult, hbound⟩ := bind_eq_ok.mp hrest
    obtain rfl := pure_eq_ok.mp hbound
    obtain ⟨m, hg⟩ := Compile.result_eq_ok.mp hresult
    obtain ⟨c, f, hc, hf, rfl⟩ := WriteOptions.runFrom_compile_eq_ok ho hg
    have hfragments : (Call.deleteItem d).fragments s = .ok [f] :=
      bind_eq_ok.mpr ⟨some f, hresult, rfl⟩
    have hsends := Call.sends_of_request (c := .deleteItem d) hr hfragments
    exact ⟨c, f, 0, m, hc, hf, rfl, hsends f (by simp)⟩
  | @scan x s _ hx hr =>
    obtain ⟨filter, hfilter, hrest⟩ := bind_eq_ok.mp hr
    obtain ⟨⟨p, g⟩, hresult, hbound⟩ := bind_eq_ok.mp hrest
    obtain rfl := pure_eq_ok.mp hbound
    have hfragments : (Call.scan x).fragments s = .ok (p.toList ++ g.toList) :=
      bind_eq_ok.mpr ⟨filter, hfilter, bind_eq_ok.mpr ⟨(p, g), hresult, rfl⟩⟩
    rw [hx] at hfilter
    obtain ⟨c, hc, hfilter⟩ := bind_eq_ok.mp hfilter
    obtain rfl := pure_eq_ok.mp hfilter
    obtain ⟨m, hrun⟩ := Compile.result_eq_ok.mp hresult
    simp only [ScanTable.compile, Compile.runFrom_bind_eq_ok, Compile.runFrom_pure_eq_ok] at hrun
    obtain ⟨p', l, -, g', j, hg, heq, rfl⟩ := hrun
    cases heq
    rw [Option.mapM_some, Compile.runFrom_map_eq_ok] at hg
    obtain ⟨f, hf, rfl⟩ := hg
    have hsends := Call.sends_of_request (c := .scan x) hr hfragments
    exact ⟨c, f, l, m, condition_of_filterCondition hc, hf, rfl, hsends f (by simp)⟩

namespace Logic

/-- **What is sent for a query is the conjunction of its halves.**

The text that a write or a scan sends for the query of a tree of predicates is read in one
way.  Its atoms are pairwise different and say, through the names and the values that are
sent with it, the predicates of the tree: those that select by key, then those that filter.
It is true where the tree without the predicates that filter and the tree without those
that select by key are both true.  This is where the tree is true, if no disjunction in it
has predicates of both kinds beneath it; of any other tree of pairwise different predicates
it is not. -/
theorem eval_sent {t : Logic Predicate} {r : Request} {row : List Symbol}
    (h : t.query.Sent r row) :
    ∃ c rows, t.query.condition = .ok c ∧ c.logic.atoms = t.sorted.map Predicate.condition ∧
      (∀ t', Reads (Symbol.render row) t' ↔ t' = rows) ∧
      List.Forall₂ (fun a row =>
        Piece.Matches (r.writtenNames?.getD []) (r.writtenValues?.getD []) a.pieces row)
        c.logic.atoms rows.atoms ∧
      rows.atoms.Nodup ∧
      (∀ truth truth', c.logic.Agree rows truth truth' →
        rows.eval truth' = t.halves Predicate.isKey fun p => truth p.condition) ∧
      (t.Separated Predicate.isKey → ∀ truth truth', c.logic.Agree rows truth truth' →
        rows.eval truth' = t.eval fun p => truth p.condition) ∧
      (¬t.Separated Predicate.isKey → (t.atoms.map Predicate.condition).Nodup →
        ∃ truth truth', c.logic.Agree rows truth truth' ∧
          rows.eval truth' ≠ t.eval fun p => truth p.condition) := by
  obtain ⟨c, f, n, m, hc, hf, rfl, hsends⟩ := h.compiled
  obtain ⟨rows, -, hreads, hatoms, hdistinct, hrows⟩ :=
    (Condition.compiled_iff.mp hf).read_back hsends
  obtain ⟨c', hc', hsorted, hhalves⟩ := t.condition_query
  obtain rfl : c = c' := by
    rw [hc] at hc'
    cases hc'
    rfl
  have heval : ∀ truth truth', c.logic.Agree rows truth truth' →
      rows.eval truth' = t.halves Predicate.isKey fun p => truth p.condition := by
    intro truth truth' hagree
    rw [hrows truth truth' hagree, hhalves]
  refine ⟨c, rows, hc, hsorted, hreads, hatoms, hdistinct, heval, ?_, ?_⟩
  · intro hseparated truth truth' hagree
    rw [heval truth truth' hagree, halves_eq_eval hseparated]
  · intro hmixed hnodup
    -- A truth of predicates is one of their conditions, and that is one of the rows.
    obtain ⟨truth, htruth⟩ := exists_halves_ne hnodup.of_map hmixed
    obtain ⟨truth', htruth'⟩ := exists_label hnodup truth
    obtain ⟨truth'', hagree⟩ := exists_agree hatoms.length_eq.ge hdistinct truth'
    refine ⟨truth', truth'', hagree, ?_⟩
    rwa [heval truth' truth'' hagree, halves_congr htruth', eval_congr htruth']

/-- A conjunction of predicates of both kinds, sent by a scan: it is sent as it is written. -/
theorem eval_sent_and :
    let t : Logic Predicate :=
      .joined .and (.atom (.isPresent ⟨.plain, .named "a"⟩))
        (.joined .and (.atom (.beginsWith ⟨.key, .named "b"⟩ (.literal (.string "x"))))
          (.atom (.isMissing ⟨.plain, .named "c"⟩)))
    ∃ r row, t.query.Sent r row ∧
      Symbol.render row =
        "begins_with(#n0, :v1) AND (attribute_exists(#n2) AND attribute_not_exists(#n3))" ∧
      ∃ c rows, t.query.condition = .ok c ∧ c.logic.atoms = t.sorted.map Predicate.condition ∧
        (∀ t', Reads (Symbol.render row) t' ↔ t' = rows) ∧
        List.Forall₂ (fun a row =>
          Piece.Matches (r.writtenNames?.getD []) (r.writtenValues?.getD []) a.pieces row)
          c.logic.atoms rows.atoms ∧
        ∀ truth truth', c.logic.Agree rows truth truth' →
          rows.eval truth' = t.eval fun p => truth p.condition := by
  intro t
  let x : ScanTable := { filter := some t.query }
  obtain ⟨r, hr⟩ : ∃ r, x.request ⟨"table", none, []⟩ = .ok r := ⟨_, rfl⟩
  have hsent : t.query.Sent r (r.filter.getD []) := .scan rfl hr
  obtain ⟨c, rows, hc, hsorted, hreads, hatoms, -, -, heval, -⟩ := eval_sent hsent
  refine ⟨r, _, hsent, ?_, c, rows, hc, hsorted, hreads, hatoms, heval ?_⟩
  · cases hr
    decide
  · exact ⟨trivial, trivial, trivial⟩

/-- A disjunction of predicates of both kinds, sent by a write: it is sent as a conjunction,
which is false where only the first predicate is true. -/
theorem eval_sent_or_ne :
    let t : Logic Predicate :=
      .joined .or (.atom (.compare ⟨.key, .named "a"⟩ .equal (.literal (.bool true))))
        (.atom (.compare ⟨.plain, .named "b"⟩ .equal (.literal (.bool true))))
    let truth : Condition → Bool
      | .compare (.path r) _ _ => r = .named "a"
      | _ => false
    ∃ r row c, t.query.Sent r row ∧ Symbol.render row = "#n0 = :v1 AND #n2 = :v3" ∧
      t.query.condition = .ok c ∧ c.eval truth = false ∧
      t.eval (fun p => truth p.condition) = true := by
  intro t truth
  let p : PutItem := { item := [], options := { condition := some t.query } }
  obtain ⟨r, hr⟩ : ∃ r, p.request ⟨"table", none, []⟩ = .ok r := ⟨_, rfl⟩
  refine ⟨r, r.condition.getD [], _, .putItem rfl hr, ?_, rfl, rfl, rfl⟩
  cases hr
  decide

end Logic

end ItemStore
