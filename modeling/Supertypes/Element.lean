/-!
# Tuple elements

One component of a tuple: either exactly one item, or a rest element, which stands for any number
of items. Tuple expressions have expressions as items, tuple types have types.
-/

namespace Supertypes

/-- A component of a tuple (`TupleElement`, and `TupleItem` among expressions). -/
structure Element (α : Type) where
  item : α
  /-- Any number of items instead of one. -/
  isRest : Bool
  deriving DecidableEq, Repr

namespace Element

variable {α β : Type}

/-- A component of exactly one item. -/
def required (item : α) : Element α := ⟨item, false⟩

/-- A component of any number of items. -/
def rest (item : α) : Element α := ⟨item, true⟩

/-- The same component with another item. -/
def map (f : α → β) (e : Element α) : Element β := ⟨f e.item, e.isRest⟩

end Element

end Supertypes
