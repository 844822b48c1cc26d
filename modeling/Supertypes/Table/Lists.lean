/-!
# List tables

Interned lists, addressed by position. Position 0 is the empty list, so it is never stored; the
list stored first has position 1.

- `ListTable.intern` answers a list's position, adding the list if it is new.
- `ListTable.get` reads a position; a position never handed out reads as the empty list.
-/

namespace Supertypes

/-- The non-empty lists interned so far, the oldest first. -/
structure ListTable (α : Type) where
  stored : List (List α) := []
  deriving Repr

namespace ListTable

variable {α : Type}

/-- The position of a list, which is added if it is new. -/
def intern [DecidableEq α] (t : ListTable α) (xs : List α) : Nat × ListTable α :=
  if xs = [] then (0, t)
  else match t.stored.findIdx? (· = xs) with
    | some i => (i + 1, t)
    | none => (t.stored.length + 1, { t with stored := t.stored ++ [xs] })

/-- The list at a position. -/
def get (t : ListTable α) : Nat → List α
  | 0 => []
  | i + 1 => t.stored[i]?.getD []

end ListTable

end Supertypes
