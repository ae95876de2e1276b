/-!
# Fields that may be unset

A field that is not set has no attribute at all; that is not the same as a null.

## Main definitions

* `Slot` — set to a value, or not set.
-/

namespace ItemStore

/-- A field's value, if the field is set. -/
inductive Slot (α : Type)
  | unset
  | set (value : α)
  deriving DecidableEq, Repr

namespace Slot

variable {α : Type}

instance : Inhabited (Slot α) := ⟨.unset⟩

/-- Whether the field is set. -/
def isSet : Slot α → Bool
  | .unset => false
  | .set _ => true

/-- Whether the field is not set. -/
def isUnset : Slot α → Bool
  | .unset => true
  | .set _ => false

/-- The value, if there is one. -/
def toOption : Slot α → Option α
  | .unset => none
  | .set a => some a

/-- The field that is set to what is there. -/
def ofOption : Option α → Slot α
  | none => .unset
  | some a => .set a

@[simp] theorem toOption_ofOption (o : Option α) : (ofOption o).toOption = o := by
  cases o <;> rfl

@[simp] theorem ofOption_toOption (m : Slot α) : ofOption m.toOption = m := by
  cases m <;> rfl

/-- Equality, given that of values. -/
def sameBy (same : α → α → Bool) : Slot α → Slot α → Bool
  | .unset, .unset => true
  | .set a, .set b => same a b
  | _, _ => false

end Slot

end ItemStore
