/-!
# Insertion-ordered dictionaries

A dictionary is a list of entries with at most one entry per key, read in the order
in which the keys first arrived.  Writing to a key that is present changes its value
and leaves its position alone.

## Main definitions

* `Dict` — the entries, in order of arrival.
* `Dict.get?`, `Dict.insert`, `Dict.erase` — reading, writing and removing one key.
* `Dict.ofList`, `Dict.union` — writing many entries, later ones winning.
* `Dict.Distinct` — no key has two entries.
-/

namespace ItemStore

/-- The entries of a dictionary, in the order in which their keys first arrived. -/
abbrev Dict (κ α : Type) := List (κ × α)

namespace Dict

variable {κ α β : Type} [DecidableEq κ]

/-- The value at a key. -/
def get? : Dict κ α → κ → Option α
  | [], _ => none
  | (k', v) :: d, k => if k' = k then some v else get? d k

/-- Write a value at a key; a present key keeps its position. -/
def insert : Dict κ α → κ → α → Dict κ α
  | [], k, v => [(k, v)]
  | (k', v') :: d, k, v => if k' = k then (k', v) :: d else (k', v') :: insert d k v

/-- Remove the entry of a key. -/
def erase (d : Dict κ α) (k : κ) : Dict κ α :=
  d.filter fun e => e.1 ≠ k

/-- The keys, in order. -/
def keys (d : Dict κ α) : List κ := d.map Prod.fst

/-- Whether a key has an entry. -/
def contains (d : Dict κ α) (k : κ) : Bool := (get? d k).isSome

/-- Write all entries of the second dictionary into the first. -/
def union (d e : Dict κ α) : Dict κ α :=
  e.foldl (fun acc entry => insert acc entry.1 entry.2) d

/-- The dictionary of a list of entries: a repeated key keeps its first position and
its last value. -/
def ofList (entries : List (κ × α)) : Dict κ α := union [] entries

/-- The dictionary, unless it is empty. -/
def nonEmpty? (d : Dict κ α) : Option (Dict κ α) := if d.isEmpty then none else some d

/-- No key has two entries. -/
def Distinct (d : Dict κ α) : Prop := (keys d).Nodup

instance (d : Dict κ α) : Decidable (Distinct d) := inferInstanceAs (Decidable (keys d).Nodup)

@[simp] theorem get?_nil (k : κ) : get? ([] : Dict κ α) k = none := rfl

theorem get?_cons (k k' : κ) (v : α) (d : Dict κ α) :
    get? ((k', v) :: d) k = if k' = k then some v else get? d k := rfl

@[simp] theorem insert_nil (k : κ) (v : α) : insert [] k v = [(k, v)] := rfl

omit [DecidableEq κ] in
@[simp] theorem keys_nil : keys ([] : Dict κ α) = [] := rfl

omit [DecidableEq κ] in
@[simp] theorem keys_cons (e : κ × α) (d : Dict κ α) : keys (e :: d) = e.1 :: keys d := rfl

@[simp] theorem union_nil (d : Dict κ α) : union d [] = d := rfl

@[simp] theorem union_cons (d : Dict κ α) (e : κ × α) (es : Dict κ α) :
    union d (e :: es) = union (insert d e.1 e.2) es := rfl

/-- A written key reads back; every other key reads as before. -/
theorem get?_insert (d : Dict κ α) (k k' : κ) (v : α) :
    get? (insert d k v) k' = if k = k' then some v else get? d k' := by
  induction d with
  | nil => simp [get?]
  | cons e d ih =>
    obtain ⟨c, w⟩ := e
    by_cases hc : c = k
    · subst hc
      simp only [insert, if_true, get?_cons]
      split <;> simp_all
    · simp only [insert, if_neg hc, get?_cons, ih]
      by_cases hk : c = k'
      · subst hk
        simp [Ne.symm hc]
      · simp [hk]

/-- An entry is found where no key has two. -/
theorem get?_of_mem {d : Dict κ α} (h : (keys d).Nodup) {k : κ} {v : α} (hmem : (k, v) ∈ d) :
    get? d k = some v := by
  induction d with
  | nil => cases hmem
  | cons e d ih =>
    obtain ⟨hnew, hrest⟩ := List.nodup_cons.mp h
    rw [get?_cons]
    rcases List.mem_cons.mp hmem with rfl | hmem
    · rw [if_pos rfl]
    · have hne : e.1 ≠ k := by
        rintro rfl
        exact hnew (List.mem_map.mpr ⟨_, hmem, rfl⟩)
      rw [if_neg hne, ih hrest hmem]

theorem mem_of_get? {d : Dict κ α} {k : κ} {v : α} (h : get? d k = some v) : (k, v) ∈ d := by
  induction d with
  | nil => cases h
  | cons e d ih =>
    rw [get?_cons] at h
    split at h
    · next heq =>
      cases h
      rw [← heq]
      exact List.mem_cons_self ..
    · exact List.mem_cons_of_mem _ (ih h)

omit [DecidableEq κ] in
theorem length_eq_of_keys_eq {d : Dict κ α} {e : Dict κ β} (h : keys d = keys e) :
    d.length = e.length := by
  have hlengths := congrArg List.length h
  rwa [keys, keys, List.length_map, List.length_map] at hlengths

theorem mem_keys_insert (d : Dict κ α) (k k' : κ) (v : α) :
    k' ∈ keys (insert d k v) ↔ k' = k ∨ k' ∈ keys d := by
  induction d with
  | nil => simp
  | cons e d ih =>
    obtain ⟨c, w⟩ := e
    by_cases hc : c = k
    · subst hc
      simp [insert]
    · simp only [insert, if_neg hc, keys_cons, List.mem_cons, ih]
      grind

/-- Writing to a key that is there keeps all keys in place. -/
theorem keys_insert_of_mem {d : Dict κ α} {k : κ} (h : k ∈ keys d) (v : α) :
    keys (insert d k v) = keys d := by
  induction d with
  | nil => cases h
  | cons e d ih =>
    rw [keys_cons, List.mem_cons] at h
    rw [insert]
    by_cases hk : e.1 = k
    · rw [if_pos hk, keys_cons, keys_cons, hk]
    · rw [if_neg hk, keys_cons, keys_cons, ih (h.resolve_left (Ne.symm hk))]

theorem mem_of_mem_insert {d : Dict κ α} {k : κ} {v : α} {e : κ × α} (h : e ∈ insert d k v) :
    e ∈ d ∨ e = (k, v) := by
  induction d with
  | nil => exact .inr (List.mem_singleton.mp h)
  | cons e' d ih =>
    rw [insert] at h
    split at h
    · next heq =>
      rcases List.mem_cons.mp h with rfl | hmem
      · exact .inr (by rw [heq])
      · exact .inl (List.mem_cons_of_mem _ hmem)
    · rcases List.mem_cons.mp h with rfl | hmem
      · exact .inl (List.mem_cons_self ..)
      · exact (ih hmem).imp_left (List.mem_cons_of_mem _)

/-- A dictionary has no other entries than were written. -/
theorem mem_of_mem_union {es : List (κ × α)} {e : κ × α} :
    ∀ {d : Dict κ α}, e ∈ union d es → e ∈ d ∨ e ∈ es := by
  induction es with
  | nil => exact fun h => .inl h
  | cons e' es ih =>
    intro d h
    rcases ih h with hmem | hmem
    · rcases mem_of_mem_insert hmem with hmem | rfl
      · exact .inl hmem
      · exact .inr (List.mem_cons_self ..)
    · exact .inr (List.mem_cons_of_mem _ hmem)

theorem mem_keys_union {es : List (κ × α)} {k : κ} :
    ∀ {d : Dict κ α}, k ∈ keys (union d es) ↔ k ∈ keys d ∨ k ∈ es.map Prod.fst := by
  induction es with
  | nil => simp
  | cons e es ih =>
    intro d
    rw [union_cons, ih, mem_keys_insert, List.map_cons, List.mem_cons, or_assoc, or_left_comm]

/-- Writing keeps the keys distinct. -/
theorem Distinct.insert {d : Dict κ α} (h : Distinct d) (k : κ) (v : α) :
    Distinct (insert d k v) := by
  induction d with
  | nil => simp [Distinct]
  | cons e d ih =>
    obtain ⟨c, w⟩ := e
    simp only [Distinct, keys_cons, List.nodup_cons] at h
    by_cases hc : c = k
    · simpa [Distinct, Dict.insert, hc] using hc ▸ h
    · simp only [Dict.insert, if_neg hc, Distinct, keys_cons, List.nodup_cons]
      refine ⟨?_, ih h.2⟩
      rw [mem_keys_insert]
      exact fun hm => hm.elim hc h.1

theorem Distinct.union {d : Dict κ α} (h : Distinct d) (e : Dict κ α) :
    Distinct (union d e) := by
  induction e generalizing d with
  | nil => exact h
  | cons p e ih => exact ih (h.insert p.1 p.2)

/-- A dictionary written entry by entry has distinct keys. -/
theorem distinct_ofList (entries : List (κ × α)) : Distinct (ofList entries) :=
  Distinct.union (d := []) (by simp [Distinct]) entries

end Dict

end ItemStore
