import ItemStore.Value

/-!
# Conversions into values

The types whose members can stand where a value is expected.

## Main definitions

* `ToValue` — the class of those types.
* `Value.ofDict` — the map of a dictionary.
-/

namespace ItemStore

/-- Types whose members have a value. -/
class ToValue (α : Type) where
  toValue : α → Value

export ToValue (toValue)

/-- The value of an integer of 64 bits. -/
def Value.ofInt64 (i : Int64) : Value := .number (.integer i)

instance : ToValue Value := ⟨id⟩

instance : ToValue Int8 := ⟨fun i => .ofInt64 i.toInt64⟩

instance : ToValue Int16 := ⟨fun i => .ofInt64 i.toInt64⟩

instance : ToValue Int32 := ⟨fun i => .ofInt64 i.toInt64⟩

instance : ToValue Int64 := ⟨.ofInt64⟩

instance : ToValue UInt8 := ⟨fun i => .ofInt64 (.ofNat i.toNat)⟩

instance : ToValue UInt16 := ⟨fun i => .ofInt64 (.ofNat i.toNat)⟩

instance : ToValue UInt32 := ⟨fun i => .ofInt64 (.ofNat i.toNat)⟩

instance : ToValue Double := ⟨fun x => .number (.float x)⟩

instance : ToValue Number := ⟨.number⟩

instance : ToValue Bool := ⟨.bool⟩

instance : ToValue String := ⟨.string⟩

instance : ToValue (SortedSet String) := ⟨.stringSet⟩

/-- A set of integers is the set of the numbers that they are. -/
instance : ToValue (SortedSet Int64) :=
  ⟨fun s => .numberSet (.ofList (s.elements.map .integer))⟩

section

variable {α β γ : Type} [ToValue α] [ToValue β] [ToValue γ]

/-- What is absent is null. -/
instance : ToValue (Option α) := ⟨fun o => o.elim .null toValue⟩

instance : ToValue (List α) := ⟨fun l => .list (l.map toValue)⟩

instance : ToValue (α × β) := ⟨fun p => .tuple [toValue p.1, toValue p.2]⟩

/-- A triple is one sequence of three, not a pair within a pair. -/
instance (priority := high) : ToValue (α × β × γ) :=
  ⟨fun p => .tuple [toValue p.1, toValue p.2.1, toValue p.2.2]⟩

/-- The map of a dictionary's values. -/
def Value.ofDict (d : Dict String α) : Value := .map (d.map fun e => (e.1, toValue e.2))

end

end ItemStore
