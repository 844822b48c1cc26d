import Supertypes.Classes.Registry
import Supertypes.Guard
import Supertypes.Types.Traversal

/-!
# Self-reference through tuple shapes

A tuple-shaped class is recursive when its elements mention the class again, directly or through
the shapes of the classes they mention.

- `Registry.shapeReaches` searches for a way back to a class through shapes. The walk is guarded;
  a walk that is cut off for a limit counts as recursive, so that the shape is not expanded.
- `Registry.markRecursion` brings the marks of all tuple-shaped classes up to date.
-/

namespace Supertypes

/-- A search through shapes: the guarded path, and the classes that need not be searched again
(`guard` and `done` of `shape_reaches_inner`). -/
abbrev ShapeSearch := StateT (List ClassId) (StateM (Guard ClassId))

namespace Registry

variable [Digest TypeData]

/-- The classes that a shape mentions, element by element (`referenced_classes` of each
element). -/
def mentioned (types : Interner) (shape : TupleShape) : List ClassId :=
  shape.elements.flatMap fun e => types.classes e.item

/-- Whether the shape of `current` leads to `target` (`shape_reaches_inner`). The guard refuses a
path of more than `Limits.shapes` classes, so with more fuel than that the search never runs out
of it. -/
def shapeReaches (r : Registry) (types : Interner) (target : ClassId) :
    Nat → ClassId → ShapeSearch Bool
  | 0, _ => pure true
  | fuel + 1, current =>
    match r.shape? current with
    | none => pure false
    | some shape => do
      let found ← Guard.scope current do
        (mentioned types shape).anyM fun c => do
          if c = target then return true
          else if c ∈ (← getThe (List ClassId)) then return false
          else
            modifyThe (List ClassId) (c :: ·)
            shapeReaches r types target fuel c
      match found with
      | .ok found => return found
      | .error refused => return refused.isExceeded

/-- Whether the tuple shape of a class refers back to the class (`tuple_shape_reaches`). -/
def isRecursiveShape (r : Registry) (types : Interner) (c : ClassId) : Bool :=
  (((r.shapeReaches types c (Limits.shapes + 1) c).run []).run (Guard.ofProfile .tupleShapes)).1.1

/-- Set the recursion mark of one class, if it has a tuple shape. -/
def markClass (r : Registry) (types : Interner) (c : ClassId) (info : ClassInfo) : ClassInfo :=
  match info.shape with
  | none => info
  | some shape =>
    let recursive := r.isRecursiveShape types c
    { info with
      shape := some { shape with isRecursive := recursive }
      flags := { info.flags with recursiveTuple := recursive } }

/-- Set the recursion marks of all tuple-shaped classes (the loop that `set_tuple_shape` ends
with). A new shape can close a circle through a class whose shape was stored long before. -/
def markRecursion (r : Registry) (types : Interner) : Registry :=
  { r with classes := r.classes.mapIdx fun n info => r.markClass types ⟨n + 1⟩ info }

end Registry

end Supertypes
