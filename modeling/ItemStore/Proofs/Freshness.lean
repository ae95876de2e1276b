import ItemStore.Proofs.Renumbering

/-!
# Compilations that share a counter

Compilations of any kind may be run one after the other from one counter, and some of them
may fail when they have already drawn numbers.  The counter never goes back, so the numbers
of one step are in the interval between the counter before and after it, and no later step
gets any of them, not even those of a step that failed.  No two expressions that come out of
such a run have a placeholder in common, and what they bind can be merged at will.

## Main definitions

* `Compilation.Step`, `Compilation.steps` — compilations, one after the other.
* `Symbol.IsToken` — a placeholder, as it is written, and its number.

## Main results

* `Compilation.step_spec` — what one step draws and yields.
* `Compilation.fresh_steps` — what holds of all steps together.
-/

namespace ItemStore

open Compile (runFrom)

/-! ### Merging -/

namespace Dict

variable {κ α β : Type} [DecidableEq κ] {part : β → Dict κ α} {bs : List β}

theorem distinct_foldl_union {d : Dict κ α} (hd : Distinct d) :
    Distinct (bs.foldl (fun d b => union d (part b)) d) := by
  induction bs generalizing d with
  | nil => exact hd
  | cons b bs ih => exact ih (hd.union _)

theorem mem_of_mem_foldl_union {d : Dict κ α} {e : κ × α}
    (he : e ∈ bs.foldl (fun d b => union d (part b)) d) : e ∈ d ∨ ∃ b ∈ bs, e ∈ part b := by
  induction bs generalizing d with
  | nil => exact .inl he
  | cons b bs ih =>
    rcases ih he with hmem | ⟨c, hc, hmem⟩
    · exact (mem_of_mem_union hmem).imp_right fun hmem => ⟨b, List.mem_cons_self .., hmem⟩
    · exact .inr ⟨c, List.mem_cons_of_mem _ hc, hmem⟩

theorem mem_keys_foldl_union {d : Dict κ α} {k : κ} :
    k ∈ keys (bs.foldl (fun d b => union d (part b)) d) ↔
      k ∈ keys d ∨ ∃ b ∈ bs, k ∈ keys (part b) := by
  induction bs generalizing d with
  | nil => simp
  | cons b bs ih =>
    rw [List.foldl_cons, ih, mem_keys_union, List.exists_mem_cons_iff, or_assoc]
    rfl

/-- An entry stays as it is where no other dictionary has another one under its key. -/
theorem get?_foldl_union {k : κ} {v : α} {b : β} (hb : b ∈ bs) (hmem : (k, v) ∈ part b)
    (hsame : ∀ c ∈ bs, ∀ w, (k, w) ∈ part c → w = v) :
    get? (bs.foldl (fun d b => union d (part b)) []) k = some v := by
  have hdistinct : Distinct (bs.foldl (fun d b => union d (part b)) []) :=
    distinct_foldl_union List.nodup_nil
  have hkey : k ∈ keys (bs.foldl (fun d b => union d (part b)) []) :=
    mem_keys_foldl_union.mpr (.inr ⟨b, hb, List.mem_map_of_mem hmem⟩)
  obtain ⟨⟨_, w⟩, hentry, rfl⟩ := List.mem_map.mp hkey
  have hw : w = v := by
    rcases mem_of_mem_foldl_union hentry with hnil | ⟨c, hc, hentry⟩
    · cases hnil
    · exact hsame c hc w hentry
  rw [← hw, get?_of_mem hdistinct hentry]

end Dict

/-! ### Placeholders as they are written -/

namespace Symbol

/-- A placeholder, as it is written, and its number. -/
def IsToken (token : String) (number : Nat) : Prop :=
  token = nameToken number ∨ token = valueToken number

theorem nameToken_ne_valueToken (n m : Nat) : nameToken n ≠ valueToken m := by
  intro heq
  have hlist := congrArg String.toList heq
  rw [toList_nameToken, toList_valueToken] at hlist
  exact absurd (List.cons.inj hlist).1 (by decide)

/-- A placeholder has one number. -/
theorem IsToken.unique {token : String} {n m : Nat} (hn : IsToken token n)
    (hm : IsToken token m) : n = m := by
  rcases hn with rfl | rfl <;> rcases hm with hm | hm
  · exact nameToken_injective hm
  · exact absurd hm (nameToken_ne_valueToken n m)
  · exact absurd hm.symm (nameToken_ne_valueToken m n)
  · exact valueToken_injective hm

end Symbol

open ItemStore.Symbol (IsToken)

/-- A placeholder in a text is one of a name or one of a value. -/
theorem namePlaceholders_append_perm (text : String) :
    (namePlaceholders text ++ valuePlaceholders text).Perm (placeholders text) := by
  have hname : namePlaceholders text = (placeholders text).filter isNamePlaceholder := by
    rw [placeholders, List.filter_filter, namePlaceholders]
    exact List.filter_congr fun lexeme _ => by cases isNamePlaceholder lexeme <;> rfl
  have hvalue : valuePlaceholders text =
      (placeholders text).filter fun lexeme => !isNamePlaceholder lexeme := by
    rw [placeholders, List.filter_filter, valuePlaceholders]
    refine List.filter_congr fun lexeme _ => ?_
    unfold isNamePlaceholder isValuePlaceholder
    cases lexeme.toList with
    | nil => rfl
    | cons c cs =>
      by_cases hc : c = '#'
      · subst hc
        rfl
      · simp [hc]
  rw [hname, hvalue]
  exact List.filter_append_perm ..

namespace Fragment

variable {f g : Fragment}

theorem exists_isToken (hf : f.Spaced) {token : String}
    (htoken : token ∈ ItemStore.placeholders f.text) :
    ∃ number ∈ f.tokens, IsToken token number := by
  rw [text, Symbol.placeholders_render hf] at htoken
  obtain ⟨s, hs, rfl⟩ := List.mem_map.mp htoken
  obtain ⟨hmem, hplaceholder⟩ := List.mem_filter.mp hs
  cases s with
  | name number => exact ⟨number, List.mem_filterMap.mpr ⟨_, hmem, rfl⟩, .inl rfl⟩
  | value number => exact ⟨number, List.mem_filterMap.mpr ⟨_, hmem, rfl⟩, .inr rfl⟩
  | _ => cases hplaceholder

/-- A fragment binds the placeholders in its text. -/
theorem placeholders_perm (hbound : f.Bound) (hspaced : f.Spaced) :
    f.placeholders.Perm (ItemStore.placeholders f.text) := by
  refine .trans (.of_eq ?_) (namePlaceholders_append_perm f.text)
  rw [placeholders, hbound.names, hbound.values, text, Symbol.namePlaceholders_render hspaced,
    Symbol.valuePlaceholders_render hspaced]

/-- Fragments without a number in common have no placeholder in common. -/
theorem disjoint_placeholders (hf : f.Spaced) (hg : g.Spaced) (hfg : f.tokens.Disjoint g.tokens) :
    (ItemStore.placeholders f.text).Disjoint (ItemStore.placeholders g.text) := by
  intro token htoken htoken'
  obtain ⟨n, hn, hisToken⟩ := exists_isToken hf htoken
  obtain ⟨m, hm, hisToken'⟩ := exists_isToken hg htoken'
  exact hfg hn (hisToken.unique hisToken' ▸ hm)

/-- No number stands for one thing in the one fragment and for another in the other. -/
def Agree {α : Type} (entries : Fragment → Dict Nat α) (f g : Fragment) : Prop :=
  ∀ k v w, (k, v) ∈ entries f → (k, w) ∈ entries g → w = v

instance {α : Type} (entries : Fragment → Dict Nat α) : Std.Symm (Agree entries) where
  symm _ _ h k v w hv hw := (h k w v hw hv).symm

end Fragment

/-! ### Compilations one after the other -/

namespace Compilation

/-- A compilation that was run: the counter before it, its result, and the counter after
it. -/
structure Step where
  before : Nat
  result : Except Error (List (Option Fragment))
  after : Nat

namespace Step

/-- The expressions that came out of a step; none if it failed. -/
def fragments (s : Step) : List Fragment :=
  match s.result with
  | .ok places => places.reduceOption
  | .error _ => []

/-- The counter handed out a number during a step, whether or not the step failed. -/
def Draws (s : Step) (number : Nat) : Prop := s.before ≤ number ∧ number < s.after

end Step

/-- A compilation, run from some number. -/
def step (c : Compilation) (n : Nat) : Step :=
  ⟨n, (runFrom c.compile n).1, (runFrom c.compile n).2⟩

/-- Compilations, run one after the other.  One that fails does not keep the others from
being run. -/
def steps : List Compilation → Nat → List Step
  | [], _ => []
  | c :: cs, n => c.step n :: steps cs (c.step n).after

/-- A step does not take the counter back, and its expressions carry numbers that were drawn
in it. -/
theorem step_spec (c : Compilation) (n : Nat) :
    n ≤ (c.step n).after ∧
      ((c.step n).fragments = [] ∨
        Fragment.Sequence n (c.step n).fragments (c.step n).after) := by
  constructor
  · rw [step, Compile.runFrom_of_shifted fun k => c.shifted_compile k]
    exact Nat.le_add_left ..
  · cases hresult : (runFrom c.compile n).1 with
    | error e => exact .inl (by rw [step, Step.fragments, hresult])
    | ok places =>
      have hfragments : (c.step n).fragments = places.reduceOption := by
        rw [step, Step.fragments, hresult]
      rw [hfragments]
      exact .inr (sequence_of_runFrom (Prod.ext hresult rfl))

section Fragments

variable {c : Compilation} {n : Nat}

theorem mem_fragments {f : Fragment} (hf : f ∈ (c.step n).fragments) :
    f.Bound ∧ f.Spaced ∧ f.tokens.Nodup ∧ ∀ number ∈ f.tokens, (c.step n).Draws number := by
  rcases (step_spec c n).2 with hnil | hsequence
  · rw [hnil] at hf
    cases hf
  · obtain ⟨hbound, hspaced⟩ := hsequence.mem f hf
    exact ⟨hbound, hspaced, (List.nodup_flatMap.mp hsequence.nodup).1 f hf,
      hsequence.bounds f hf⟩

theorem pairwise_fragments (c : Compilation) (n : Nat) :
    (c.step n).fragments.Pairwise fun f g => f.tokens.Disjoint g.tokens := by
  rcases (step_spec c n).2 with hnil | hsequence
  · rw [hnil]
    exact .nil
  · exact (List.nodup_flatMap.mp hsequence.nodup).2

end Fragments

section Steps

variable {cs : List Compilation} {n : Nat}

theorem mem_steps {s : Step} (hs : s ∈ steps cs n) :
    n ≤ s.before ∧ ∃ c : Compilation, s = c.step s.before := by
  induction cs generalizing n with
  | nil => cases hs
  | cons c cs ih =>
    rcases List.mem_cons.mp hs with rfl | hs
    · exact ⟨Nat.le_refl n, c, rfl⟩
    · obtain ⟨hle, hstep⟩ := ih hs
      exact ⟨Nat.le_trans (step_spec c n).1 hle, hstep⟩

/-- The counter does not go back. -/
theorem pairwise_steps (cs : List Compilation) (n : Nat) :
    (steps cs n).Pairwise fun s t => s.after ≤ t.before := by
  induction cs generalizing n with
  | nil => exact .nil
  | cons c cs ih => exact List.pairwise_cons.mpr ⟨fun t ht => (mem_steps ht).1, ih _⟩

theorem spec_of_mem_steps {s : Step} (hs : s ∈ steps cs n) :
    s.before ≤ s.after ∧ ∀ f ∈ s.fragments,
      f.Bound ∧ f.Spaced ∧ f.tokens.Nodup ∧ ∀ number ∈ f.tokens, s.Draws number := by
  obtain ⟨-, c, hstep⟩ := mem_steps hs
  rw [hstep]
  exact ⟨(step_spec c _).1, fun f hf => mem_fragments hf⟩

theorem spec_of_mem_flatMap {f : Fragment} (hf : f ∈ (steps cs n).flatMap Step.fragments) :
    f.Bound ∧ f.Spaced ∧ f.tokens.Nodup := by
  obtain ⟨s, hs, hf⟩ := List.mem_flatMap.mp hf
  obtain ⟨hbound, hspaced, hnodup, -⟩ := (spec_of_mem_steps hs).2 f hf
  exact ⟨hbound, hspaced, hnodup⟩

/-- No two expressions of a run have a number in common. -/
theorem pairwise_flatMap (cs : List Compilation) (n : Nat) :
    ((steps cs n).flatMap Step.fragments).Pairwise fun f g => f.tokens.Disjoint g.tokens := by
  refine List.pairwise_flatMap.mpr ⟨?_, ?_⟩
  · intro s hs
    obtain ⟨-, c, hstep⟩ := mem_steps hs
    rw [hstep]
    exact pairwise_fragments c _
  · refine (pairwise_steps cs n).imp_of_mem fun hs ht hle f hf g hg number hnumber hnumber' => ?_
    obtain ⟨-, hlt⟩ := ((spec_of_mem_steps hs).2 f hf).2.2.2 number hnumber
    obtain ⟨hle', -⟩ := ((spec_of_mem_steps ht).2 g hg).2.2.2 number hnumber'
    omega

/-- The expressions of a run agree on what they bind. -/
theorem agree_of_mem {α : Type} {entries : Fragment → Dict Nat α}
    (hkeys : ∀ f : Fragment, f.Bound → (Dict.keys (entries f)).Sublist f.tokens) :
    ∀ f ∈ (steps cs n).flatMap Step.fragments, ∀ g ∈ (steps cs n).flatMap Step.fragments,
      Fragment.Agree entries f g := by
  intro f hf g hg
  refine List.Pairwise.forall_of_forall ?_ ?_ hf hg
  · intro f hf k v w hv hw
    obtain ⟨hbound, -, hnodup⟩ := spec_of_mem_flatMap hf
    have hdistinct := hnodup.sublist (hkeys f hbound)
    have hget := Dict.get?_of_mem hdistinct hv
    rw [Dict.get?_of_mem hdistinct hw] at hget
    exact Option.some.inj hget
  -- Two expressions at different places have no key in common.
  · refine (pairwise_flatMap cs n).imp_of_mem fun hf hg hdisjoint k v w hv hw => ?_
    have hk := (hkeys _ (spec_of_mem_flatMap hf).1).subset (List.mem_map_of_mem hv)
    have hk' := (hkeys _ (spec_of_mem_flatMap hg).1).subset (List.mem_map_of_mem hw)
    exact (hdisjoint hk hk').elim

/-- The placeholders in the text of an expression are the ones it binds, and their numbers were
drawn in its step. -/
theorem draws_of_mem_steps {s : Step} (hs : s ∈ steps cs n) {f : Fragment} (hf : f ∈ s.fragments) :
    f.placeholders.Perm (placeholders f.text) ∧
      ∀ token ∈ placeholders f.text, ∃ number, s.Draws number ∧ IsToken token number := by
  obtain ⟨hbound, hspaced, -, hdraws⟩ := (spec_of_mem_steps hs).2 f hf
  refine ⟨Fragment.placeholders_perm hbound hspaced, fun token htoken => ?_⟩
  obtain ⟨number, hnumber, hisToken⟩ := Fragment.exists_isToken hspaced htoken
  exact ⟨number, hdraws number hnumber, hisToken⟩

section Merge

variable {fs : List Fragment} (hfs : fs ⊆ (steps cs n).flatMap Step.fragments)
include hfs

/-- Merged names keep those of each expression. -/
theorem get?_allNames {f : Fragment} (hf : f ∈ fs) :
    ∀ e ∈ Fragment.writtenNames f.names,
      Dict.get? (Fragment.writtenNames (Fragment.allNames fs)) e.1 = some e.2 := by
  intro e he
  obtain ⟨⟨k, s⟩, hmem, rfl⟩ := List.mem_map.mp he
  rw [Fragment.get?_writtenNames]
  refine Dict.get?_foldl_union hf hmem fun g hg w hw => ?_
  exact agree_of_mem (fun f hf => hf.names ▸ Symbol.nameTokens_sublist f.symbols)
    f (hfs hf) g (hfs hg) k s w hmem hw

/-- Merged values keep those of each expression. -/
theorem get?_allValues {f : Fragment} (hf : f ∈ fs) :
    ∀ e ∈ Fragment.writtenValues f.values,
      Dict.get? (Fragment.writtenValues (Fragment.allValues fs)) e.1 = some e.2 := by
  intro e he
  obtain ⟨⟨k, v⟩, hmem, rfl⟩ := List.mem_map.mp he
  rw [Fragment.get?_writtenValues]
  refine Dict.get?_foldl_union hf hmem fun g hg w hw => ?_
  exact agree_of_mem (fun f hf => hf.values ▸ Symbol.valueTokens_sublist f.symbols)
    f (hfs hf) g (hfs hg) k v w hmem hw

end Merge

/-- **Compilations that share a counter do not get in each other's way.**

Whatever is compiled in whatever order, and whichever of it fails: each expression binds the
placeholders in its text, and their numbers were drawn in its own step.  The counter does not
go back, so a number that was drawn in a step, be it one that failed, is drawn in no later
one.  No two expressions have a placeholder in common, and however some of them are merged,
each keeps what it binds. -/
theorem fresh_steps (cs : List Compilation) (n : Nat) :
    (∀ s ∈ steps cs n, n ≤ s.before ∧ s.before ≤ s.after ∧ ∀ f ∈ s.fragments,
        f.placeholders.Perm (placeholders f.text) ∧
          ∀ token ∈ placeholders f.text, ∃ number, s.Draws number ∧ IsToken token number) ∧
      (steps cs n).Pairwise (fun s t =>
        s.after ≤ t.before ∧ ∀ number, s.Draws number → ¬t.Draws number) ∧
      ((steps cs n).flatMap Step.fragments).Pairwise
        (fun f g => (placeholders f.text).Disjoint (placeholders g.text)) ∧
      ∀ fs ⊆ (steps cs n).flatMap Step.fragments, ∀ f ∈ fs,
        (∀ e ∈ Fragment.writtenNames f.names,
          Dict.get? (Fragment.writtenNames (Fragment.allNames fs)) e.1 = some e.2) ∧
        ∀ e ∈ Fragment.writtenValues f.values,
          Dict.get? (Fragment.writtenValues (Fragment.allValues fs)) e.1 = some e.2 := by
  refine ⟨fun s hs => ?_, ?_, ?_, fun fs hfs f hf => ?_⟩
  · exact ⟨(mem_steps hs).1, (spec_of_mem_steps hs).1, fun f hf => draws_of_mem_steps hs hf⟩
  · refine (pairwise_steps cs n).imp fun hle => ⟨hle, fun number hs ht => ?_⟩
    exact Nat.lt_irrefl _ (Nat.lt_of_lt_of_le hs.2 (Nat.le_trans hle ht.1))
  · refine (pairwise_flatMap cs n).imp_of_mem fun hf hg => ?_
    exact Fragment.disjoint_placeholders (spec_of_mem_flatMap hf).2.1 (spec_of_mem_flatMap hg).2.1
  · exact ⟨get?_allNames hfs hf, get?_allValues hfs hf⟩

end Steps

/-- Between an update and a query, a condition fails when it has drawn two numbers. -/
example :
    let update : Update := .both (.action (.remove (.named "a")))
      (.action (.set (.named "b") (.literal (.bool true))))
    let failing : Condition := .compare (.path (.named "c")) .equal (.literal (.stringSet .empty))
    let query : Query := ⟨some (.exists (.named "d")), some (.notExists (.named "e"))⟩
    let run := steps [.update update, .expression (.condition failing), .query query] 0
    run.map (fun s => (s.before, s.after)) = [(0, 3), (3, 5), (5, 7)] ∧
      (run.flatMap Step.fragments).map Fragment.text =
        ["SET #n1 = :v2 REMOVE #n0", "attribute_exists(#n5)", "attribute_not_exists(#n6)"] := by
  decide

end Compilation

end ItemStore
