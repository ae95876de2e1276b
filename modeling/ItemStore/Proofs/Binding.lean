import ItemStore.Proofs.Meaning
import ItemStore.Request.Read
import ItemStore.Request.Write

/-!
# What the placeholders of a request stand for

The expressions of a request are compiled one after the other from one counter, and what
they bind is put together in one pair of dictionaries.  Since no number is drawn twice,
nothing is overwritten there, and the dictionaries have an entry for each placeholder in
the texts of the expressions and no other.

## Main definitions

* `Fragment.Sequence` — fragments that are compiled one after the other.
* `Request.Covers`, `Request.WellBound` — placeholders occur once and are bound, and nothing
  else is.
* `Request.Merges` — the expressions and the entries of a request are those of fragments.
* `Call` — what a caller may ask for, apart from the list of tables.

## Main results

* `Request.bind_wellBound` — merging distinct fragments binds their placeholders.
* `Call.sends_of_request` — what is compiled for a call finds its names and values in the request.
* `Call.wellBound_of_request` — every request binds its placeholders.
-/

namespace ItemStore

open ItemStore.Symbol

/-! ### Fragments that are compiled one after the other -/

namespace Fragment

/-- Fragments that are compiled one after the other, taking the counter from one number to
another. -/
inductive Sequence : Nat → List Fragment → Nat → Prop
  | nil {n : Nat} : Sequence n [] n
  | cons {f : Fragment} {fs : List Fragment} {n l m : Nat} :
    f.Drawn n l → f.Spaced → Sequence l fs m → Sequence n (f :: fs) m

theorem Sequence.single {f : Fragment} {n m : Nat} (hf : f.Drawn n m) (hspaced : f.Spaced) :
    Sequence n [f] m :=
  .cons hf hspaced .nil

theorem Sequence.append {fs gs : List Fragment} {n l m : Nat} (hfs : Sequence n fs l)
    (hgs : Sequence l gs m) : Sequence n (fs ++ gs) m := by
  induction hfs with
  | nil => exact hgs
  | cons hf hspaced _ ih => exact .cons hf hspaced (ih hgs)

theorem Sequence.mem {fs : List Fragment} {n m : Nat} (h : Sequence n fs m) :
    ∀ f ∈ fs, f.Bound ∧ f.Spaced := by
  induction h with
  | nil => simp
  | cons hf hspaced _ ih => simpa using ⟨⟨hf.bound, hspaced⟩, ih⟩

/-- Together they carry the numbers that were drawn. -/
theorem Sequence.tokens {fs : List Fragment} {n m : Nat} (h : Sequence n fs m) :
    n ≤ m ∧ (fs.flatMap Fragment.tokens).Perm (List.range' n (m - n)) := by
  induction h with
  | nil => simp
  | @cons f fs n l m hf _ _ ih =>
    obtain ⟨hle', hperm⟩ := ih
    have hle := hf.le
    refine ⟨Nat.le_trans hle hle', ?_⟩
    rw [List.flatMap_cons, ← range'_append_sub hle hle']
    exact hf.tokens.append hperm

/-- Each of them carries numbers that were drawn. -/
theorem Sequence.bounds {fs : List Fragment} {n m : Nat} (h : Sequence n fs m) :
    ∀ f ∈ fs, ∀ number ∈ f.tokens, n ≤ number ∧ number < m := by
  intro f hf number hnumber
  obtain ⟨hle, hperm⟩ := h.tokens
  have hdrawn := hperm.mem_iff.mp (List.mem_flatMap.mpr ⟨f, hf, hnumber⟩)
  rw [List.mem_range'_1] at hdrawn
  omega

/-- No placeholder occurs twice in them. -/
theorem Sequence.nodup {fs : List Fragment} {n m : Nat} (h : Sequence n fs m) :
    (fs.flatMap Fragment.tokens).Nodup :=
  h.tokens.2.nodup_iff.mpr List.nodup_range'

end Fragment

open Fragment

/-! ### Requests -/

namespace Request

/-- The placeholders of names in the texts of a request's expressions. -/
def namePlaceholders (r : Request) : List String :=
  r.expressions.flatMap fun row => ItemStore.namePlaceholders (Symbol.render row)

/-- The placeholders of values in the texts of a request's expressions. -/
def valuePlaceholders (r : Request) : List String :=
  r.expressions.flatMap fun row => ItemStore.valuePlaceholders (Symbol.render row)

/-- Each placeholder occurs once, what is sent has an entry for each of them and no other,
and where there is no placeholder nothing is sent. -/
structure Covers {α : Type} (sent : Option (Dict String α)) (placeholders : List String) :
    Prop where
  once : placeholders.Nodup
  /-- The entries are those of the placeholders. -/
  bound : (Dict.keys (sent.getD [])).Perm placeholders
  /-- Nothing is sent where there is no placeholder. -/
  absent : sent = none ↔ placeholders = []

/-- The names and the values of a request are those of the placeholders in the texts of its
expressions. -/
structure WellBound (r : Request) : Prop where
  names : Covers r.writtenNames? r.namePlaceholders
  values : Covers r.writtenValues? r.valuePlaceholders

/-- The expressions of a request are those of some fragments, and its names and values are
all that the fragments bind, side by side. -/
structure Merges (r : Request) (fragments : List Fragment) : Prop where
  expressions : r.expressions = fragments.map Fragment.symbols
  names : r.names.getD [] = fragments.flatMap Fragment.names
  values : r.values.getD [] = fragments.flatMap Fragment.values

theorem getD_nonEmpty? {α : Type} (d : Dict Nat α) : d.nonEmpty?.getD [] = d := by
  unfold Dict.nonEmpty?
  cases d with
  | nil => rfl
  | cons e d => rfl

theorem nonEmpty?_eq_none {α : Type} {d : Dict Nat α} : d.nonEmpty? = none ↔ d = [] := by
  unfold Dict.nonEmpty?
  cases d with
  | nil => simp
  | cons e d => simp

variable {r : Request} {fs : List Fragment}

/-- Merging distinct fragments overwrites nothing. -/
theorem bind_merges (hexpressions : r.expressions = fs.map Fragment.symbols)
    (hbound : ∀ f ∈ fs, f.Bound) (hnodup : (fs.flatMap Fragment.tokens).Nodup) :
    (r.bind fs).Merges fs := by
  refine ⟨hexpressions, ?_, ?_⟩
  · rw [bind, getD_nonEmpty?, allNames_eq_flatMap hbound hnodup]
  · rw [bind, getD_nonEmpty?, allValues_eq_flatMap hbound hnodup]

/-- A request that merges fragments sends what each of them binds. -/
theorem Merges.sends (h : r.Merges fs) (hbound : ∀ f ∈ fs, f.Bound)
    (hnodup : (fs.flatMap Fragment.tokens).Nodup) {f : Fragment} (hf : f ∈ fs) :
    Piece.Sends (r.writtenNames?.getD []) (r.writtenValues?.getD []) f := by
  constructor
  · intro k s hk
    have hwritten : r.writtenNames?.getD [] = writtenNames (r.names.getD []) := by
      rw [writtenNames?]
      cases r.names <;> rfl
    rw [hwritten, h.names, get?_writtenNames]
    exact Dict.get?_of_mem (nodup_keys_names hbound hnodup) (List.mem_flatMap.mpr ⟨f, hf, hk⟩)
  · intro k w hk
    have hwritten : r.writtenValues?.getD [] = writtenValues (r.values.getD []) := by
      rw [writtenValues?]
      cases r.values <;> rfl
    rw [hwritten, h.values, get?_writtenValues]
    exact Dict.get?_of_mem (nodup_keys_values hbound hnodup) (List.mem_flatMap.mpr ⟨f, hf, hk⟩)

theorem namePlaceholders_eq (hexpressions : r.expressions = fs.map Fragment.symbols)
    (hspaced : ∀ f ∈ fs, f.Spaced) :
    r.namePlaceholders = (fs.flatMap fun f => nameTokens f.symbols).map nameToken := by
  rw [namePlaceholders, hexpressions, List.flatMap_map, List.map_flatMap]
  exact List.flatMap_congr fun f hf => namePlaceholders_render (hspaced f hf)

theorem valuePlaceholders_eq (hexpressions : r.expressions = fs.map Fragment.symbols)
    (hspaced : ∀ f ∈ fs, f.Spaced) :
    r.valuePlaceholders = (fs.flatMap fun f => valueTokens f.symbols).map valueToken := by
  rw [valuePlaceholders, hexpressions, List.flatMap_map, List.map_flatMap]
  exact List.flatMap_congr fun f hf => valuePlaceholders_render (hspaced f hf)

/-- Entries with distinct keys cover the placeholders that are written for the keys. -/
theorem covers_nonEmpty? {α β : Type} {d : Dict Nat α} {written : Dict Nat α → Dict String β}
    {token : Nat → String} (htoken : Function.Injective token)
    (hwritten : Dict.keys (written d) = (Dict.keys d).map token) (hd : (Dict.keys d).Nodup) :
    Covers (d.nonEmpty?.map written) ((Dict.keys d).map token) := by
  refine ⟨hd.map htoken, ?_, ?_⟩
  · rw [← hwritten]
    cases d with
    | nil =>
      rw [hwritten]
      rfl
    | cons e d => rfl
  · rw [Option.map_eq_none_iff, nonEmpty?_eq_none, List.map_eq_nil_iff, Dict.keys,
      List.map_eq_nil_iff]

/-- Merging distinct fragments binds their placeholders. -/
theorem bind_wellBound (hexpressions : r.expressions = fs.map Fragment.symbols)
    (hbound : ∀ f ∈ fs, f.Bound) (hspaced : ∀ f ∈ fs, f.Spaced)
    (hnodup : (fs.flatMap Fragment.tokens).Nodup) : (r.bind fs).WellBound := by
  constructor
  · have hplaceholders : (r.bind fs).namePlaceholders =
        (Dict.keys (fs.flatMap Fragment.names)).map nameToken := by
      rw [keys_flatMap_names hbound]
      exact namePlaceholders_eq hexpressions hspaced
    have hsent : (r.bind fs).writtenNames? =
        (Dict.nonEmpty? (fs.flatMap Fragment.names)).map writtenNames := by
      rw [← allNames_eq_flatMap hbound hnodup]
      rfl
    rw [hplaceholders, hsent]
    exact covers_nonEmpty? nameToken_injective (keys_writtenNames _)
      (nodup_keys_names hbound hnodup)
  · have hplaceholders : (r.bind fs).valuePlaceholders =
        (Dict.keys (fs.flatMap Fragment.values)).map valueToken := by
      rw [keys_flatMap_values hbound]
      exact valuePlaceholders_eq hexpressions hspaced
    have hsent : (r.bind fs).writtenValues? =
        (Dict.nonEmpty? (fs.flatMap Fragment.values)).map writtenValues := by
      rw [← allValues_eq_flatMap hbound hnodup]
      rfl
    rw [hplaceholders, hsent]
    exact covers_nonEmpty? valueToken_injective (keys_writtenValues _)
      (nodup_keys_values hbound hnodup)

end Request

/-! ### What a caller asks for -/

/-- What a caller may ask for, apart from the list of tables. -/
inductive Call
  | getItem (g : GetItem)
  | query (q : QueryPartition)
  | scan (q : ScanTable)
  | putItem (p : PutItem)
  | updateItem (u : UpdateItem)
  | deleteItem (d : DeleteItem)

namespace Call

/-- The request of a call. -/
def request (s : Schema) : Call → Except Error Request
  | .getItem g => g.request s
  | .query q => q.request s
  | .scan q => q.request s
  | .putItem p => p.request s
  | .updateItem u => u.request s
  | .deleteItem d => d.request s

/-- The expressions of a call with what they bind, in the order of the request. -/
def fragments (s : Schema) : Call → Except Error (List Fragment)
  | .getItem _ => do
    let projection ← s.compileProjection.result
    return projection.toList
  | .query q => do
    let keyCondition ← q.query.keyCondition
    let filterCondition ← q.filterCondition
    let (projection, filter, key) ←
      (QueryPartition.compile s filterCondition keyCondition).result
    return projection.toList ++ filter.toList ++ [key]
  | .scan q => do
    let filterCondition ← q.filter.mapM Query.filterCondition
    let (projection, filter) ← (ScanTable.compile s filterCondition).result
    return projection.toList ++ filter.toList
  | .putItem p => do
    let condition ← p.options.compile.result
    return condition.toList
  | .updateItem u => do
    let (update, condition) ← u.compile.result
    return condition.toList ++ [update]
  | .deleteItem d => do
    let condition ← d.options.compile.result
    return condition.toList

end Call

theorem Compile.result_eq_ok {α : Type} {c : Compile α} {a : α} :
    c.result = .ok a ↔ ∃ m, c.runFrom 0 = (.ok a, m) := by
  unfold Compile.result
  rcases c.runFrom 0 with ⟨r, m⟩
  simp

/-! ### The fragments of a call are compiled one after the other -/

theorem Schema.sequence_compileProjection {s : Schema} {n m : Nat} {p : Option Fragment}
    (h : Compile.runFrom s.compileProjection n = (.ok p, m)) : Sequence n p.toList m := by
  unfold Schema.compileProjection at h
  simp only at h
  split at h
  · rw [Compile.runFrom_pure_eq_ok] at h
    obtain ⟨rfl, rfl⟩ := h
    exact .nil
  · rw [Compile.runFrom_bind_eq_ok] at h
    obtain ⟨f, l, hf, hp⟩ := h
    rw [Compile.runFrom_pure_eq_ok] at hp
    obtain ⟨rfl, rfl⟩ := hp
    exact .single (Projection.numbered_of_runFrom hf).drawn (Projection.spaced_of_runFrom hf)

theorem Condition.sequence_compile {c : Condition} {n m : Nat} {f : Fragment}
    (h : Compile.runFrom c.compile n = (.ok f, m)) : Sequence n [f] m :=
  .single (compiled_iff.mp h).numbered.drawn (compiled_iff.mp h).spaced

theorem Condition.sequence_mapM {c : Option Condition} {n m : Nat} {f : Option Fragment}
    (h : Compile.runFrom (c.mapM Condition.compile) n = (.ok f, m)) : Sequence n f.toList m := by
  rcases Compile.runFrom_option_mapM_eq_ok.mp h with ⟨-, rfl, rfl⟩ | ⟨c, f, -, rfl, hf⟩
  · exact .nil
  · exact sequence_compile hf

theorem WriteOptions.sequence_compile {o : WriteOptions} {n m : Nat} {f : Option Fragment}
    (h : Compile.runFrom o.compile n = (.ok f, m)) : Sequence n f.toList m := by
  unfold WriteOptions.compile at h
  split at h
  · rw [Compile.runFrom_pure_eq_ok] at h
    obtain ⟨rfl, rfl⟩ := h
    exact .nil
  · split at h
    · exact (Compile.runFrom_throw_eq_ok.mp h).elim
    · rw [Compile.runFrom_bind_eq_ok] at h
      obtain ⟨f, l, hf, hp⟩ := h
      rw [Compile.runFrom_pure_eq_ok] at hp
      obtain ⟨rfl, rfl⟩ := hp
      exact Condition.sequence_compile hf

theorem Update.sequence_compile {u : Update} {n m : Nat} {f : Fragment}
    (h : Compile.runFrom u.compile n = (.ok f, m)) : Sequence n [f] m :=
  .single (drawn_of_runFrom h) (spaced_of_runFrom h)

namespace Call

/-- The expressions of a call are compiled one after the other, an update before its
condition. -/
theorem sequence_fragments {c : Call} {s : Schema} {fs : List Fragment}
    (h : c.fragments s = .ok fs) : ∃ gs m, gs.Perm fs ∧ Sequence 0 gs m := by
  cases c with
  | getItem g =>
    obtain ⟨p, hp, hfs⟩ := bind_eq_ok.mp h
    obtain rfl := pure_eq_ok.mp hfs
    obtain ⟨m, hp⟩ := Compile.result_eq_ok.mp hp
    exact ⟨_, m, .refl _, Schema.sequence_compileProjection hp⟩
  | query q =>
    obtain ⟨key, -, h⟩ := bind_eq_ok.mp h
    obtain ⟨filter, -, h⟩ := bind_eq_ok.mp h
    obtain ⟨⟨p, f, k⟩, hrun, hfs⟩ := bind_eq_ok.mp h
    obtain rfl := pure_eq_ok.mp hfs
    obtain ⟨m, hrun⟩ := Compile.result_eq_ok.mp hrun
    simp only [QueryPartition.compile, Compile.runFrom_bind_eq_ok,
      Compile.runFrom_pure_eq_ok] at hrun
    obtain ⟨p', l, hp, f', j, hf, k', i, hk, heq, rfl⟩ := hrun
    cases heq
    have hreads := (Schema.sequence_compileProjection hp).append (Condition.sequence_mapM hf)
    exact ⟨_, m, .refl _, hreads.append (Condition.sequence_compile hk)⟩
  | scan q =>
    obtain ⟨filter, -, h⟩ := bind_eq_ok.mp h
    obtain ⟨⟨p, f⟩, hrun, hfs⟩ := bind_eq_ok.mp h
    obtain rfl := pure_eq_ok.mp hfs
    obtain ⟨m, hrun⟩ := Compile.result_eq_ok.mp hrun
    simp only [ScanTable.compile, Compile.runFrom_bind_eq_ok, Compile.runFrom_pure_eq_ok] at hrun
    obtain ⟨p', l, hp, f', j, hf, heq, rfl⟩ := hrun
    cases heq
    exact ⟨_, m, .refl _,
      (Schema.sequence_compileProjection hp).append (Condition.sequence_mapM hf)⟩
  | putItem p =>
    obtain ⟨f, hf, hfs⟩ := bind_eq_ok.mp h
    obtain rfl := pure_eq_ok.mp hfs
    obtain ⟨m, hf⟩ := Compile.result_eq_ok.mp hf
    exact ⟨_, m, .refl _, WriteOptions.sequence_compile hf⟩
  | updateItem u =>
    obtain ⟨⟨update, condition⟩, hrun, hfs⟩ := bind_eq_ok.mp h
    obtain rfl := pure_eq_ok.mp hfs
    obtain ⟨m, hrun⟩ := Compile.result_eq_ok.mp hrun
    -- The update draws its numbers first; the request has the condition first.
    simp only [UpdateItem.compile, Compile.runFrom_bind_eq_ok, Compile.runFrom_pure_eq_ok] at hrun
    obtain ⟨update', l, hupdate, condition', j, hcondition, heq, rfl⟩ := hrun
    cases heq
    exact ⟨_, m, List.perm_append_comm,
      (Update.sequence_compile hupdate).append (WriteOptions.sequence_compile hcondition)⟩
  | deleteItem d =>
    obtain ⟨f, hf, hfs⟩ := bind_eq_ok.mp h
    obtain rfl := pure_eq_ok.mp hfs
    obtain ⟨m, hf⟩ := Compile.result_eq_ok.mp hf
    exact ⟨_, m, .refl _, WriteOptions.sequence_compile hf⟩

/-- A request carries the expressions of its call and is bound by what they bind. -/
theorem request_eq_bind {c : Call} {s : Schema} {r : Request} (h : c.request s = .ok r) :
    ∃ (base : Request) (fs : List Fragment), c.fragments s = .ok fs ∧
      base.expressions = fs.map Fragment.symbols ∧ r = base.bind fs := by
  cases c with
  | getItem g =>
    obtain ⟨key, -, h⟩ := bind_eq_ok.mp h
    obtain ⟨p, hp, hr⟩ := bind_eq_ok.mp h
    obtain rfl := pure_eq_ok.mp hr
    refine ⟨_, p.toList, bind_eq_ok.mpr ⟨p, hp, rfl⟩, ?_, rfl⟩
    cases p <;> rfl
  | query q =>
    obtain ⟨key, hkey, h⟩ := bind_eq_ok.mp h
    obtain ⟨filter, hfilter, h⟩ := bind_eq_ok.mp h
    obtain ⟨⟨p, f, k⟩, hrun, hr⟩ := bind_eq_ok.mp h
    obtain rfl := pure_eq_ok.mp hr
    refine ⟨_, p.toList ++ f.toList ++ [k], ?_, ?_, rfl⟩
    · exact bind_eq_ok.mpr ⟨key, hkey, bind_eq_ok.mpr ⟨filter, hfilter,
        bind_eq_ok.mpr ⟨(p, f, k), hrun, rfl⟩⟩⟩
    · cases p <;> cases f <;> rfl
  | scan q =>
    obtain ⟨filter, hfilter, h⟩ := bind_eq_ok.mp h
    obtain ⟨⟨p, f⟩, hrun, hr⟩ := bind_eq_ok.mp h
    obtain rfl := pure_eq_ok.mp hr
    refine ⟨_, p.toList ++ f.toList, ?_, ?_, rfl⟩
    · exact bind_eq_ok.mpr ⟨filter, hfilter, bind_eq_ok.mpr ⟨(p, f), hrun, rfl⟩⟩
    · cases p <;> cases f <;> rfl
  | putItem p =>
    obtain ⟨f, hf, hr⟩ := bind_eq_ok.mp h
    obtain rfl := pure_eq_ok.mp hr
    refine ⟨_, f.toList, bind_eq_ok.mpr ⟨f, hf, rfl⟩, ?_, rfl⟩
    cases f <;> rfl
  | updateItem u =>
    obtain ⟨key, -, h⟩ := bind_eq_ok.mp h
    obtain ⟨⟨update, condition⟩, hrun, hr⟩ := bind_eq_ok.mp h
    obtain rfl := pure_eq_ok.mp hr
    refine ⟨_, condition.toList ++ [update],
      bind_eq_ok.mpr ⟨(update, condition), hrun, rfl⟩, ?_, rfl⟩
    cases condition <;> rfl
  | deleteItem d =>
    obtain ⟨key, -, h⟩ := bind_eq_ok.mp h
    obtain ⟨f, hf, hr⟩ := bind_eq_ok.mp h
    obtain rfl := pure_eq_ok.mp hr
    refine ⟨_, f.toList, bind_eq_ok.mpr ⟨f, hf, rfl⟩, ?_, rfl⟩
    cases f <;> rfl

/-- A request sends the names and the values of whatever is compiled for its call. -/
theorem sends_of_request {c : Call} {s : Schema} {r : Request} (hr : c.request s = .ok r)
    {fs : List Fragment} (hfs : c.fragments s = .ok fs) :
    ∀ f ∈ fs, Piece.Sends (r.writtenNames?.getD []) (r.writtenValues?.getD []) f := by
  obtain ⟨base, gs, hgs, hexpressions, rfl⟩ := request_eq_bind hr
  obtain rfl : gs = fs := by
    rw [hgs] at hfs
    exact Except.ok.inj hfs
  obtain ⟨inOrder, m, hperm, hsequence⟩ := sequence_fragments hgs
  have hbound : ∀ f ∈ gs, f.Bound := fun f hf => (hsequence.mem f (hperm.mem_iff.mpr hf)).1
  have hnodup : (gs.flatMap Fragment.tokens).Nodup :=
    (hperm.flatMap_right _).nodup_iff.mp hsequence.nodup
  intro f hf
  exact (Request.bind_merges hexpressions hbound hnodup).sends hbound hnodup hf

/-- **Every request binds its placeholders.**

In the texts of a request's expressions each placeholder occurs once, and the request has
names and values for these placeholders and for no other.  They are all that the single
expressions bind, so nothing was overwritten when they were put together. -/
theorem wellBound_of_request {c : Call} {s : Schema} {r : Request} (h : c.request s = .ok r) :
    r.WellBound ∧ ∃ fs, c.fragments s = .ok fs ∧ r.Merges fs ∧ ∀ f ∈ fs, f.Bound := by
  obtain ⟨base, fs, hfs, hexpressions, rfl⟩ := request_eq_bind h
  obtain ⟨gs, m, hperm, hsequence⟩ := sequence_fragments hfs
  have hmem : ∀ f ∈ fs, f.Bound ∧ f.Spaced := fun f hf => hsequence.mem f (hperm.mem_iff.mpr hf)
  have hbound : ∀ f ∈ fs, f.Bound := fun f hf => (hmem f hf).1
  have hspaced : ∀ f ∈ fs, f.Spaced := fun f hf => (hmem f hf).2
  -- All fragments come from one counter, in whatever order they are put together.
  have hnodup : (fs.flatMap Fragment.tokens).Nodup :=
    (hperm.flatMap_right _).nodup_iff.mp hsequence.nodup
  exact ⟨Request.bind_wellBound hexpressions hbound hspaced hnodup, fs, hfs,
    Request.bind_merges hexpressions hbound hnodup, hbound⟩

/-- An update with a condition: its clauses are not in the order of its actions, and the
condition is bound before the update though it is compiled after it. -/
theorem wellBound_of_request_update :
    let s : Schema := ⟨"table", none, []⟩
    let c : Call := .updateItem {
      key := .explicit []
      update := .both (.action (.remove (.named "a")))
        (.action (.set (.named "b") (.literal (.bool true))))
      options := { condition := some (.ofFilter (.exists (.named "c"))) } }
    ∃ r, c.request s = .ok r ∧
      r.update.map Symbol.render = some "SET #n1 = :v2 REMOVE #n0" ∧
      r.condition.map Symbol.render = some "attribute_exists(#n3)" ∧
      r.names = some [(3, "c"), (1, "b"), (0, "a")] ∧ r.WellBound := by
  intro s c
  obtain ⟨r, hr⟩ : ∃ r, c.request s = .ok r := ⟨_, rfl⟩
  have hwell := (wellBound_of_request hr).1
  refine ⟨r, hr, ?_, ?_, ?_, hwell⟩
  all_goals
    cases hr
    decide

end Call

end ItemStore
