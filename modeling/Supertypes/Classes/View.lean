import Supertypes.Classes.Basic
import Supertypes.Types.Interner

/-!
# Views of a hierarchy

What the supertype mapper and the type printer read of a hierarchy. A view need not come from a
registry, so its base edges may form cycles.

- `ClassView.withEdges` puts further base edges behind those of a view, unchecked.
- `tupleFallback` is the instance of the tuple class that a tuple collapses to: every tuple is
  also an instance of that class, whose argument joins the items.
-/

namespace Supertypes

/-- A hierarchy for reading (`ClassHierarchy`). -/
structure ClassView where
  name? : ClassId → Option String
  /-- Type parameters in the order of declaration; none for an unknown class. -/
  params : ClassId → List Param
  /-- Base edges in the order of declaration; none for an unknown class. -/
  bases : ClassId → List Instance
  shape? : ClassId → Option TupleShape
  /-- The class of tuples of any length. -/
  tuple : ClassId
  /-- At most so many classes have base edges. -/
  size : Nat

namespace ClassView

/-- Number of type parameters. -/
def arity (view : ClassView) (c : ClassId) : Nat :=
  (view.params c).length

/-- The view with further base edges, each behind those that its class has. -/
def withEdges (view : ClassView) (edges : List (ClassId × Instance)) : ClassView :=
  { view with
    bases := fun c => view.bases c ++ (edges.filter (·.1 = c)).map Prod.snd
    size := view.size + edges.length }

end ClassView

/-- The instance of the tuple class, applied to the union of the items, that a tuple is
(`tuple_fallback`). -/
def tupleFallback [Digest TypeData] (tuple : ClassId) (elements : List (Element TypeId)) :
    Interning Instance := do
  let joined ← Interner.union (elements.map Element.item)
  Interner.apply tuple [joined]

end Supertypes
