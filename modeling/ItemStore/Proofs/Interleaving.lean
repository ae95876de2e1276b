import ItemStore.Proofs.Declared
import ItemStore.Schema.Lookup

/-!
# The schema that all lookups return

Lookups that share a registry take their turns in any order, and what is declared of a model may be
something else each time that it is asked for.  Several lookups of one model may find that there is
no schema, and each of them builds one of its own.  The registry keeps the schema that is inserted
first, and a lookup that comes later returns that one and not its own.

Whatever a single turn does to the registry is to offer a schema to it, for the model that was asked
for: the schema is kept if there is none.  So the registry has, of each model, the first schema that
was offered, and a lookup that succeeds has seen the registry have it.  A lookup fails with what is
wrong with the declarations that it was given, and offers nothing.

## Main definitions

* `Lookup.Moves` — what a turn does.
* `Lookups.offers` — the schemas that lookups come to insert, in order.
* `Lookups.Accounted` — what the stage of a lookup says about the registry and the past.
* `Lookups.Agrees` — lookups return the schema that was inserted first.
* `Lookups.Keeps` — what later events leave as it is.

## Main results

* `Lookup.advance_eq_some_iff`, `Lookups.lookup_of_step` — turns and events, case by case.
* `Lookups.find?_of_run` — what the registry has after a run.
* `Lookups.exists_run_returned`, `Lookups.run_alone` — a lookup can always be ended, and without
  interruption it is the lookup of the registry.
* `Lookups.agrees_of_run` — lookups in any order.
-/

namespace ItemStore

/-- The entries of a dictionary come before those that are put after it. -/
theorem Dict.get?_append {κ α : Type} [DecidableEq κ] (d e : Dict κ α) (k : κ) :
    Dict.get? (d ++ e) k = (Dict.get? d k).or (Dict.get? e k) := by
  induction d with
  | nil => rfl
  | cons entry d ih =>
    obtain ⟨k', v⟩ := entry
    rw [List.cons_append, get?_cons, get?_cons]
    split
    · rfl
    · exact ih

/-! ### One turn -/

namespace Lookup

/-- What a turn does: one case for each way that it can end. -/
inductive Moves (model : String) (r : Registry) : Stage → Turn → Registry → Stage → Prop
  | found {kept : Schema} : r.find? model = some kept →
    Moves model r .asked .check r (.returned (.ok kept))
  | missed : r.find? model = none → Moves model r .asked .check r .absent
  | failed {draft : SchemaDraft} {e : Error} : draft.build = .error e →
    Moves model r .absent (.build draft) r (.returned (.error e))
  | built {draft : SchemaDraft} {s : Schema} : draft.build = .ok s →
    Moves model r .absent (.build draft) r (.built s)
  | inserted {s : Schema} : r.find? model = none →
    Moves model r (.built s) .insert (Dict.insert r model s) (.returned (.ok s))
  | overtaken {s kept : Schema} : r.find? model = some kept →
    Moves model r (.built s) .insert r (.returned (.ok kept))

theorem advance_eq_some_iff {l l' : Lookup} {r r' : Registry} {t : Turn} :
    l.advance r t = some (r', l') ↔
      l'.model = l.model ∧ Moves l.model r l.stage t r' l'.stage := by
  obtain ⟨model, stage⟩ := l
  obtain ⟨model', stage'⟩ := l'
  constructor
  · intro h
    unfold advance at h
    split at h
    · next hstage =>
      cases hstage
      split at h
      · next hkept =>
        cases h
        exact ⟨rfl, .found hkept⟩
      · next hnone =>
        cases h
        exact ⟨rfl, .missed hnone⟩
    · next hstage =>
      cases hstage
      split at h
      · next hbuild =>
        cases h
        exact ⟨rfl, .failed hbuild⟩
      · next hbuild =>
        cases h
        exact ⟨rfl, .built hbuild⟩
    · next hstage =>
      cases hstage
      unfold Registry.insertIfAbsent at h
      split at h
      · next hinsert =>
        split at hinsert
        · next hkept =>
          cases hinsert
          cases h
          exact ⟨rfl, .overtaken hkept⟩
        · next hnone =>
          cases hinsert
          cases h
          exact ⟨rfl, .inserted hnone⟩
    · cases h
  · rintro ⟨rfl, h⟩
    cases h with
    | found h => simp [advance, h]
    | missed h => simp [advance, h]
    | failed h => simp [advance, h]
    | built h => simp [advance, h]
    | inserted h => simp [advance, Registry.insertIfAbsent, h]
    | overtaken h => simp [advance, Registry.insertIfAbsent, h]

/-- The schema that a turn offers to the registry. -/
def Stage.offer? : Stage → Turn → Option Schema
  | .built s, .insert => some s
  | _, _ => none

/-- How many turns a lookup has before it. -/
def Stage.remaining : Stage → Nat
  | .asked => 3
  | .absent => 2
  | .built _ => 1
  | .returned _ => 0

section Moves

variable {model : String} {r r' : Registry} {stage stage' : Stage} {t : Turn}

/-- **A turn offers a schema** for the model of the lookup, and does nothing else to the
registry. -/
theorem Moves.find?_eq (h : Moves model r stage t r' stage') (other : String) :
    r'.find? other =
      (r.find? other).or (Dict.get? ((stage.offer? t).map (model, ·)).toList other) := by
  cases h with
  | found | missed | failed | built => simp [Stage.offer?]
  | @inserted s hnone =>
    show Dict.get? (Dict.insert r model s) other = _
    rw [Dict.get?_insert]
    split
    · next heq =>
      subst heq
      rw [hnone]
      simp [Stage.offer?, Dict.get?_cons]
    · next hne =>
      have hne' : model ≠ other := fun heq => hne (by simp [heq])
      simp [Stage.offer?, Dict.get?_cons, hne', Registry.find?]
  | @overtaken s kept hkept =>
    by_cases heq : model = other
    · subst heq
      simp [hkept]
    · simp [Stage.offer?, Dict.get?_cons, heq]

theorem Moves.remaining_lt (h : Moves model r stage t r' stage') :
    stage'.remaining < stage.remaining := by
  cases h <;> simp [Stage.remaining]

/-- A lookup that has not returned can take a turn, whatever is declared. -/
theorem exists_moves (model : String) (r : Registry) (draft : SchemaDraft)
    (h : 0 < stage.remaining) : ∃ t r' stage', Moves model r stage t r' stage' := by
  cases stage with
  | asked =>
    cases hfind : r.find? model with
    | none => exact ⟨_, _, _, .missed hfind⟩
    | some kept => exact ⟨_, _, _, .found hfind⟩
  | absent =>
    cases hbuild : draft.build with
    | error e => exact ⟨_, _, _, .failed hbuild⟩
    | ok s => exact ⟨_, _, _, .built hbuild⟩
  | built s =>
    cases hfind : r.find? model with
    | none => exact ⟨_, _, _, .inserted hfind⟩
    | some kept => exact ⟨_, _, _, .overtaken hfind⟩
  | returned result => exact absurd h (Nat.lt_irrefl 0)

end Moves

end Lookup

/-! ### One event -/

namespace Lookups

open Lookup (Moves)

variable {σ σ' τ : Lookups} {event : Event} {past events : List Event} {i : Nat} {l : Lookup}

theorem step_turn {t : Lookup.Turn} :
    σ.step (.turn i t) = some σ' ↔
      ∃ l stage, σ.lookups[i]? = some l ∧ Moves l.model σ.registry l.stage t σ'.registry stage ∧
        σ'.lookups = σ.lookups.set i ⟨l.model, stage⟩ := by
  simp only [step, Option.bind_eq_bind, Option.bind_eq_some_iff, Option.pure_def, Option.some.injEq]
  constructor
  · rintro ⟨l, hl, ⟨r, l'⟩, hadvance, rfl⟩
    obtain ⟨hmodel, hmoves⟩ := Lookup.advance_eq_some_iff.mp hadvance
    refine ⟨l, l'.stage, hl, hmoves, ?_⟩
    rw [← hmodel]
  · rintro ⟨l, stage, hl, hmoves, hlookups⟩
    refine ⟨l, hl, (σ'.registry, ⟨l.model, stage⟩),
      Lookup.advance_eq_some_iff.mpr ⟨rfl, hmoves⟩, ?_⟩
    rw [← hlookups]

/-- **Where a lookup comes from**: it is as it was, it was called, or it took a turn. -/
theorem lookup_of_step (h : σ.step event = some σ') (hl : σ'.lookups[i]? = some l) :
    σ.lookups[i]? = some l ∨ l.stage = .asked ∨
      ∃ stage t, event = .turn i t ∧ σ.lookups[i]? = some ⟨l.model, stage⟩ ∧
        Moves l.model σ.registry stage t σ'.registry l.stage := by
  cases event with
  | call model =>
    cases h
    rw [List.getElem?_append] at hl
    split at hl
    · exact .inl hl
    · rw [List.getElem?_singleton] at hl
      split at hl
      · cases hl
        exact .inr (.inl rfl)
      · cases hl
  | turn j t =>
    obtain ⟨k, stage, hk, hmoves, hlookups⟩ := step_turn.mp h
    rw [hlookups, List.getElem?_set] at hl
    split at hl
    · next heq =>
      subst heq
      split at hl
      · cases hl
        exact .inr (.inr ⟨k.stage, t, rfl, hk, hmoves⟩)
      · cases hl
    · exact .inl hl

/-- A lookup stays, and once it has returned it stays as it is. -/
theorem exists_lookup_of_step (h : σ.step event = some σ') (hl : σ.lookups[i]? = some l) :
    ∃ l', σ'.lookups[i]? = some l' ∧ l'.model = l.model ∧
      ∀ result, l.stage = .returned result → l' = l := by
  have hi : i < σ.lookups.length := (List.getElem?_eq_some_iff.mp hl).1
  cases event with
  | call model =>
    cases h
    refine ⟨l, ?_, rfl, fun _ _ => rfl⟩
    rw [List.getElem?_append_left hi]
    exact hl
  | turn j t =>
    obtain ⟨k, stage, hk, hmoves, hlookups⟩ := step_turn.mp h
    rw [hlookups]
    by_cases heq : j = i
    · subst heq
      rw [hl] at hk
      cases hk
      refine ⟨_, List.getElem?_set_self hi, rfl, ?_⟩
      intro result hresult
      rw [hresult] at hmoves
      cases hmoves
    · refine ⟨l, ?_, rfl, fun _ _ => rfl⟩
      rw [List.getElem?_set_ne heq]
      exact hl

/-- The schema that an event offers to the registry, for its model. -/
def offer? (σ : Lookups) : Event → Option (String × Schema)
  | .call _ => none
  | .turn caller t => σ.lookups[caller]?.bind fun l => (l.stage.offer? t).map (l.model, ·)

/-- An event offers a schema for the model of its lookup, and does nothing else to the registry. -/
theorem find?_of_step (h : σ.step event = some σ') (model : String) :
    σ'.registry.find? model =
      (σ.registry.find? model).or (Dict.get? (σ.offer? event).toList model) := by
  cases event with
  | call model =>
    cases h
    simp [offer?]
  | turn j t =>
    obtain ⟨k, stage, hk, hmoves, -⟩ := step_turn.mp h
    rw [offer?, hk]
    exact hmoves.find?_eq model

/-- What the registry has, it keeps. -/
theorem find?_mono_of_step (h : σ.step event = some σ') {model : String} {s : Schema}
    (hs : σ.registry.find? model = some s) : σ'.registry.find? model = some s := by
  rw [find?_of_step h, hs]
  rfl

/-- An event leaves the registry as it is but for the model of its lookup. -/
theorem find?_of_step_of_ne (h : σ.step event = some σ') {model : String}
    (hne : ∀ i t l, event = .turn i t → σ.lookups[i]? = some l → l.model ≠ model) :
    σ'.registry.find? model = σ.registry.find? model := by
  cases event with
  | call =>
    cases h
    rfl
  | turn j t =>
    obtain ⟨k, stage, hk, hmoves, -⟩ := step_turn.mp h
    have hmodel := hne j t k rfl hk
    rw [hmoves.find?_eq]
    cases k.stage.offer? t with
    | none => simp
    | some s => simp [Dict.get?_cons, hmodel]

/-! ### Runs -/

@[simp] theorem run_nil (σ : Lookups) : σ.run [] = some σ := rfl

theorem run_cons :
    σ.run (event :: events) = some σ' ↔ ∃ τ, σ.step event = some τ ∧ τ.run events = some σ' := by
  rw [run, List.foldlM_cons]
  exact Option.bind_eq_some_iff

/-- The schemas that lookups come to insert, in order.  Of those for one model, the first one is
inserted and the others find it there. -/
def offers (σ : Lookups) : List Event → List (String × Schema)
  | [] => []
  | event :: events =>
    (σ.offer? event).toList ++ (σ.step event).elim [] fun τ => τ.offers events

theorem offers_cons (h : σ.step event = some τ) :
    σ.offers (event :: events) = (σ.offer? event).toList ++ τ.offers events := by
  rw [offers, h]
  rfl

/-- **What the registry has after a run**: what it had, and otherwise what was offered first. -/
theorem find?_of_run (h : σ.run events = some σ') (model : String) :
    σ'.registry.find? model =
      (σ.registry.find? model).or (Dict.get? (σ.offers events) model) := by
  induction events generalizing σ with
  | nil =>
    cases h
    simp [offers]
  | cons event events ih =>
    obtain ⟨τ, hstep, hrun⟩ := run_cons.mp h
    rw [ih hrun, find?_of_step hstep, offers_cons hstep, Dict.get?_append, Option.or_assoc]

theorem exists_lookup_of_run (h : σ.run events = some σ') (hl : σ.lookups[i]? = some l) :
    ∃ l', σ'.lookups[i]? = some l' ∧ l'.model = l.model ∧
      ∀ result, l.stage = .returned result → l' = l := by
  induction events generalizing σ l with
  | nil =>
    cases h
    exact ⟨l, hl, rfl, fun _ _ => rfl⟩
  | cons event events ih =>
    obtain ⟨τ, hstep, hrun⟩ := run_cons.mp h
    obtain ⟨k, hk, hmodel, hkept⟩ := exists_lookup_of_step hstep hl
    obtain ⟨l', hl', hmodel', hkept'⟩ := ih hrun hk
    refine ⟨l', hl', hmodel'.trans hmodel, ?_⟩
    intro result hresult
    have heq := hkept result hresult
    subst heq
    exact hkept' result hresult

/-! ### What lookups return -/

/-- What the stage of a lookup says about the registry and about what has happened: a schema that is
returned is in the registry, and the lookup's own declarations were built, or could not be. -/
structure Accounted (r : Registry) (past : List Event) (i : Nat) (l : Lookup) : Prop where
  returned : ∀ s, l.stage = .returned (.ok s) → r.find? l.model = some s
  built : ∀ s, l.stage = .built s → ∃ draft, .turn i (.build draft) ∈ past ∧ draft.build = .ok s
  failed : ∀ e, l.stage = .returned (.error e) →
    ∃ draft, .turn i (.build draft) ∈ past ∧ draft.build = .error e

/-- All stages are accounted for. -/
def AllAccounted (σ : Lookups) (past : List Event) : Prop :=
  ∀ i l, σ.lookups[i]? = some l → Accounted σ.registry past i l

/-- The stage that a turn leads to is accounted for by the turn. -/
theorem accounted_of_moves {r : Registry} {stage : Lookup.Stage} {t : Lookup.Turn}
    (h : Moves l.model r stage t σ.registry l.stage) :
    Accounted σ.registry (past ++ [.turn i t]) i l := by
  have hlast : Event.turn i t ∈ past ++ [Event.turn i t] :=
    List.mem_append_right _ (List.mem_singleton_self _)
  obtain ⟨model, stage'⟩ := l
  obtain ⟨r', lookups⟩ := σ
  simp only at h ⊢
  cases h with
  | found hkept | overtaken hkept =>
    refine ⟨?_, nofun, nofun⟩
    intro s hs
    cases hs
    exact hkept
  | missed => exact ⟨nofun, nofun, nofun⟩
  | failed hbuild =>
    refine ⟨nofun, nofun, ?_⟩
    intro e he
    cases he
    exact ⟨_, hlast, hbuild⟩
  | built hbuild =>
    refine ⟨nofun, ?_, nofun⟩
    intro s hs
    cases hs
    exact ⟨_, hlast, hbuild⟩
  | inserted =>
    refine ⟨?_, nofun, nofun⟩
    intro s hs
    cases hs
    show Dict.get? (Dict.insert r model _) model = _
    rw [Dict.get?_insert, if_pos rfl]

theorem AllAccounted.step (hσ : σ.AllAccounted past) (h : σ.step event = some σ') :
    σ'.AllAccounted (past ++ [event]) := by
  intro i l hl
  rcases lookup_of_step h hl with hl | hasked | ⟨stage, t, rfl, -, hmoves⟩
  · obtain ⟨hreturned, hbuilt, hfailed⟩ := hσ i l hl
    refine ⟨fun s hs => find?_mono_of_step h (hreturned s hs), ?_, ?_⟩
    · intro s hs
      obtain ⟨draft, hdraft, hbuild⟩ := hbuilt s hs
      exact ⟨draft, List.mem_append_left _ hdraft, hbuild⟩
    · intro e he
      obtain ⟨draft, hdraft, hbuild⟩ := hfailed e he
      exact ⟨draft, List.mem_append_left _ hdraft, hbuild⟩
  · refine ⟨?_, ?_, ?_⟩ <;> simp [hasked]
  · exact accounted_of_moves hmoves

theorem AllAccounted.run (hσ : σ.AllAccounted past) (h : σ.run events = some σ') :
    σ'.AllAccounted (past ++ events) := by
  induction events generalizing σ past with
  | nil =>
    cases h
    rw [List.append_nil]
    exact hσ
  | cons event events ih =>
    obtain ⟨τ, hstep, hrun⟩ := run_cons.mp h
    rw [List.append_cons]
    exact ih (hσ.step hstep) hrun

/-- A schema that is offered was built by a lookup of its model. -/
theorem AllAccounted.exists_of_mem_offers (hσ : σ.AllAccounted past)
    (h : σ.run events = some σ') {model : String} {s : Schema}
    (hs : (model, s) ∈ σ.offers events) :
    ∃ i l draft, σ'.lookups[i]? = some l ∧ l.model = model ∧
      .turn i (.build draft) ∈ past ++ events ∧ draft.build = .ok s := by
  induction events generalizing σ past with
  | nil => cases hs
  | cons event events ih =>
    obtain ⟨τ, hstep, hrun⟩ := run_cons.mp h
    rw [offers_cons hstep, List.mem_append, Option.mem_toList] at hs
    rcases hs with hs | hs
    · cases event with
      | call => cases hs
      | turn j t =>
        obtain ⟨l, hl, hoffer⟩ := Option.bind_eq_some_iff.mp hs
        obtain ⟨s', hs', heq⟩ := Option.map_eq_some_iff.mp hoffer
        cases heq
        have hbuilt : l.stage = .built s := by
          unfold Lookup.Stage.offer? at hs'
          split at hs'
          · next hstage =>
            cases hs'
            exact hstage
          · cases hs'
        obtain ⟨draft, hdraft, hbuild⟩ := (hσ j l hl).built s hbuilt
        obtain ⟨l', hl', hmodel, -⟩ := exists_lookup_of_run h hl
        exact ⟨j, l', draft, hl', hmodel, List.mem_append_left _ hdraft, hbuild⟩
    · rw [List.append_cons]
      exact ih (hσ.step hstep) hrun hs

/-- Lookups return the schema that was inserted first, and the registry keeps it. -/
structure Agrees (σ : Lookups) (events : List Event) : Prop where
  /-- A lookup that succeeds returns the first schema of its model. -/
  returned : ∀ (i : Nat) (l : Lookup) (s : Schema), σ.lookups[i]? = some l →
    l.stage = .returned (.ok s) → Dict.get? (initial.offers events) l.model = some s
  kept : ∀ model, σ.registry.find? model = Dict.get? (initial.offers events) model
  /-- A schema is inserted for the model for which it was built. -/
  offered : ∀ model s, (model, s) ∈ initial.offers events →
    ∃ i l draft, σ.lookups[i]? = some l ∧ l.model = model ∧
      .turn i (.build draft) ∈ events ∧ draft.build = .ok s
  /-- A lookup that fails returns the error of its own build. -/
  failed : ∀ (i : Nat) (l : Lookup) (e : Error), σ.lookups[i]? = some l →
    l.stage = .returned (.error e) →
    ∃ draft, .turn i (.build draft) ∈ events ∧ draft.build = .error e

theorem agrees_of_run_initial (h : initial.run events = some σ) : σ.Agrees events := by
  have hinitial : initial.AllAccounted [] := by
    intro i l hl
    cases hl
  have hall := hinitial.run h
  have hkept : ∀ model, σ.registry.find? model = Dict.get? (initial.offers events) model := by
    intro model
    rw [find?_of_run h]
    rfl
  refine ⟨?_, hkept, fun model s => hinitial.exists_of_mem_offers h, ?_⟩
  · intro i l s hl hs
    rw [← hkept]
    exact (hall i l hl).returned s hs
  · intro i l e hl he
    exact (hall i l hl).failed e he

/-! ### What later events leave as it is -/

/-- What events leave as it is. -/
structure Keeps (σ : Lookups) (events : List Event) (σ' : Lookups) : Prop where
  entries : ∀ model s, σ.registry.find? model = some s → σ'.registry.find? model = some s
  /-- The entry of a model is changed by lookups of this model alone. -/
  others : ∀ model, (∀ (i : Nat) (t : Lookup.Turn) (l : Lookup), .turn i t ∈ events →
    σ'.lookups[i]? = some l → l.model ≠ model) →
    σ'.registry.find? model = σ.registry.find? model
  results : ∀ (i : Nat) (l : Lookup) (result : Except Error Schema), σ.lookups[i]? = some l →
    l.stage = .returned result → σ'.lookups[i]? = some l

theorem keeps_of_run (h : σ.run events = some σ') : σ.Keeps events σ' := by
  refine ⟨?_, ?_, ?_⟩
  · intro model s hs
    rw [find?_of_run h, hs]
    rfl
  · intro model hne
    induction events generalizing σ with
    | nil =>
      cases h
      rfl
    | cons event events ih =>
      obtain ⟨τ, hstep, hrun⟩ := run_cons.mp h
      rw [ih hrun fun i t l ht => hne i t l (List.mem_cons_of_mem _ ht)]
      refine find?_of_step_of_ne hstep fun i t l hevent hl => ?_
      obtain ⟨l', hl', hmodel, -⟩ := exists_lookup_of_run h hl
      rw [← hmodel]
      exact hne i t l' (by simp [hevent]) hl'
  · intro i l result hl hresult
    obtain ⟨l', hl', -, hkept⟩ := exists_lookup_of_run h hl
    rw [hl', hkept result hresult]

/-- A build that fails ends the lookup with its error, and the registry is left as it is. -/
theorem step_of_build_eq_error {draft : SchemaDraft} {e : Error} (hl : σ.lookups[i]? = some l)
    (habsent : l.stage = .absent) (h : draft.build = .error e) :
    σ.step (.turn i (.build draft)) =
      some ⟨σ.registry, σ.lookups.set i ⟨l.model, .returned (.error e)⟩⟩ := by
  refine step_turn.mpr ⟨l, _, hl, ?_, rfl⟩
  rw [habsent]
  exact .failed h

/-! ### Lookups that end -/

/-- The first of a lookup's own turns is taken. -/
theorem run_turn_cons {r' : Registry} {stage' : Lookup.Stage} {t : Lookup.Turn}
    (hl : σ.lookups[i]? = some l) (h : Moves l.model σ.registry l.stage t r' stage')
    (turns : List Lookup.Turn) :
    σ.run ((t :: turns).map (Event.turn i)) =
      run ⟨r', σ.lookups.set i ⟨l.model, stage'⟩⟩ (turns.map (Event.turn i)) := by
  have hstep : σ.step (.turn i t) = some ⟨r', σ.lookups.set i ⟨l.model, stage'⟩⟩ :=
    step_turn.mpr ⟨l, stage', hl, h, rfl⟩
  rw [List.map_cons, run, List.foldlM_cons, hstep]
  rfl

/-- From wherever it is, a lookup can be ended by its own turns. -/
theorem exists_run_returned (hl : σ.lookups[i]? = some l) (draft : SchemaDraft) :
    ∃ (turns : List Lookup.Turn) (σ' : Lookups) (result : Except Error Schema),
      turns.length ≤ l.stage.remaining ∧ σ.run (turns.map (Event.turn i)) = some σ' ∧
        σ'.lookups[i]? = some ⟨l.model, .returned result⟩ := by
  obtain ⟨model, stage⟩ := l
  induction hremaining : stage.remaining using Nat.strongRecOn generalizing σ stage with
  | ind remaining ih =>
    subst hremaining
    rcases Nat.eq_zero_or_pos stage.remaining with hzero | hpos
    · cases stage with
      | returned result => exact ⟨[], σ, result, Nat.zero_le _, rfl, hl⟩
      | _ => cases hzero
    · obtain ⟨t, r', stage', hmoves⟩ := Lookup.exists_moves model σ.registry draft hpos
      have hi : i < σ.lookups.length := (List.getElem?_eq_some_iff.mp hl).1
      let τ : Lookups := ⟨r', σ.lookups.set i ⟨model, stage'⟩⟩
      have hset : τ.lookups[i]? = some ⟨model, stage'⟩ := List.getElem?_set_self hi
      have hlt := hmoves.remaining_lt
      obtain ⟨turns, σ', result, hlength, hrun, hresult⟩ := ih _ hlt stage' hset rfl
      refine ⟨t :: turns, σ', result, ?_, ?_, hresult⟩
      · rw [List.length_cons]
        omega
      · rw [run_turn_cons hl hmoves]
        exact hrun

/-- **Without interruption** a lookup does what the lookup of the registry does. -/
theorem run_alone (hl : σ.lookups[i]? = some l) (hasked : l.stage = .asked)
    (draft : SchemaDraft) :
    ∃ turns : List Lookup.Turn, σ.run (turns.map (Event.turn i)) =
      some ⟨(σ.registry.lookup l.model draft).2,
        σ.lookups.set i ⟨l.model, .returned (σ.registry.lookup l.model draft).1⟩⟩ := by
  have hi : i < σ.lookups.length := (List.getElem?_eq_some_iff.mp hl).1
  obtain ⟨model, stage⟩ := l
  cases hasked
  cases hfind : σ.registry.find? model with
  | some kept =>
    refine ⟨[.check], ?_⟩
    rw [run_turn_cons hl (.found hfind)]
    simp [Registry.lookup, hfind]
  | none =>
    have habsent : (σ.lookups.set i ⟨model, .absent⟩)[i]? = some ⟨model, .absent⟩ :=
      List.getElem?_set_self hi
    cases hbuild : draft.build with
    | error e =>
      refine ⟨[.check, .build draft], ?_⟩
      rw [run_turn_cons hl (.missed hfind), run_turn_cons habsent (.failed hbuild)]
      simp [Registry.lookup, hfind, hbuild]
    | ok s =>
      have hbuilt : ((σ.lookups.set i ⟨model, .absent⟩).set i ⟨model, .built s⟩)[i]? =
          some ⟨model, .built s⟩ := by
        rw [List.set_set]
        exact List.getElem?_set_self hi
      refine ⟨[.check, .build draft, .insert], ?_⟩
      rw [run_turn_cons hl (.missed hfind), run_turn_cons habsent (.built hbuild),
        run_turn_cons hbuilt (.inserted hfind)]
      simp [Registry.lookup, Registry.insertIfAbsent, hfind, hbuild]

/-- **Lookups in any order.**

Whatever turns lookups have taken, all that succeeded have returned the schema that was inserted
first for their model, which the registry keeps, and all that failed have returned the error of
their own build.  A build that fails leaves the registry as it is.  Later events change no entry,
add entries only for the models of their own lookups, and change nothing that was returned. -/
theorem agrees_of_run (h : initial.run events = some σ) :
    σ.Agrees events ∧
      (∀ i l draft e, σ.lookups[i]? = some l → l.stage = .absent → draft.build = .error e →
        σ.step (.turn i (.build draft)) =
          some ⟨σ.registry, σ.lookups.set i ⟨l.model, .returned (.error e)⟩⟩) ∧
      ∀ later σ', σ.run later = some σ' → σ.Keeps later σ' := by
  refine ⟨agrees_of_run_initial h, ?_, fun later σ' => keeps_of_run⟩
  intro i l draft e hl habsent hbuild
  exact step_of_build_eq_error hl habsent hbuild

/-- Three lookups of one model find no schema.  The one that was called first is overtaken by the
second and returns the schema of that one; the third is given nothing that can be built. -/
theorem agrees_of_run_overtaken :
    let first := SchemaDraft.new "first"
    let second := SchemaDraft.new "second"
    let events : List Event := [.call "movie", .call "movie", .turn 1 .check, .turn 0 .check,
      .call "movie", .turn 2 .check, .turn 0 (.build first), .turn 2 (.build (.new "")),
      .turn 1 (.build second), .turn 1 .insert, .call "person", .turn 3 .check, .turn 0 .insert,
      .turn 3 (.build first), .turn 3 .insert]
    ∃ σ s s', initial.run events = some σ ∧ first.build = .ok s ∧ second.build = .ok s' ∧
      s ≠ s' ∧ σ.lookups = [⟨"movie", .returned (.ok s')⟩, ⟨"movie", .returned (.ok s')⟩,
        ⟨"movie", .returned (.error .emptyTableName)⟩, ⟨"person", .returned (.ok s)⟩] ∧
      σ.Agrees events ∧ Dict.get? (initial.offers events) "movie" = some s' := by
  intro first second events
  obtain ⟨σ, hσ⟩ : ∃ σ, initial.run events = some σ := ⟨_, rfl⟩
  have hagrees := (agrees_of_run hσ).1
  refine ⟨σ, _, _, hσ, rfl, rfl, by decide, ?_, hagrees, ?_⟩
  · cases hσ
    rfl
  · cases hσ
    exact hagrees.returned 0 _ _ rfl rfl

end Lookups

end ItemStore
