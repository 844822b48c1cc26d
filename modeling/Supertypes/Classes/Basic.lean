import Supertypes.Types.Basic

/-!
# Classes

What is declared about one class, and the reasons for which a declaration is refused.

- `ClassInfo`: name, type parameters, base edges in order, and the tuple that the class is sugar
  over, if it is.
- `HierarchyError`: the cause of a refused edit; `HierarchyError.message` words it.
-/

namespace Supertypes

/-- The built-in root class. -/
def ClassId.object : ClassId := ⟨1⟩

/-- The built-in class of tuples of any length. -/
def ClassId.tuple : ClassId := ⟨2⟩

/-- Marks of a class. -/
structure ClassFlags where
  /-- Present in every registry. -/
  builtin : Bool := false
  /-- Declared as sugar over a tuple. -/
  tupleShaped : Bool := false
  /-- The tuple refers back to the class. -/
  recursiveTuple : Bool := false
  deriving DecidableEq, Repr

namespace ClassFlags

/-- The marks of either (`with_flags`). -/
def union (a b : ClassFlags) : ClassFlags where
  builtin := a.builtin || b.builtin
  tupleShaped := a.tupleShaped || b.tupleShaped
  recursiveTuple := a.recursiveTuple || b.recursiveTuple

end ClassFlags

/-- The tuple that a class is sugar over. -/
structure TupleShape where
  elements : List (Element TypeId)
  /-- The elements mention the class again, directly or through other tuple-shaped classes, so
  that the shape cannot be expanded ahead of time. -/
  isRecursive : Bool := false
  deriving DecidableEq, Repr

/-- The declaration of a class. -/
structure ClassInfo where
  name : String
  /-- Own type parameters in the order of declaration. -/
  params : List Param
  /-- Base edges in the order of declaration. -/
  bases : List Instance := []
  shape : Option TupleShape := none
  flags : ClassFlags := {}
  deriving DecidableEq, Repr

namespace ClassInfo

/-- The class has type parameters (`is_generic`). -/
def isGeneric (c : ClassInfo) : Bool :=
  !c.params.isEmpty

/-- The class has a type parameter of this identity. -/
def declares (c : ClassInfo) (p : ParamId) : Bool :=
  c.params.any (·.id = p)

end ClassInfo

/-- Why an edit of a hierarchy is refused. -/
inductive HierarchyError
  | unknownClass (c : ClassId)
  /-- A new class brings a type parameter that another class has. -/
  | paramTaken (p : ParamId) (owner : ClassId)
  /-- A base edge has the wrong number of arguments. -/
  | arityMismatch (c base : ClassId) (expected found : Nat)
  /-- A base edge mentions a type parameter that its class does not have. -/
  | foreignParam (c : ClassId) (p : ParamId)
  /-- A base edge would make a class its own ancestor. -/
  | inheritanceCycle (child parent : ClassId)
  deriving DecidableEq, Repr

namespace HierarchyError

/-- The wording of an error. -/
def message : HierarchyError → String
  | .unknownClass c => s!"unknown class {c.text}"
  | .paramTaken p owner => s!"type parameter {p.text} is already bound by class {owner.text}"
  | .arityMismatch c base expected found =>
    s!"base {base.text} of class {c.text} expects {expected} type arguments, got {found}"
  | .foreignParam c p =>
    s!"base of class {c.text} mentions type variable {p.text}, which the class does not declare"
  | .inheritanceCycle child parent =>
    s!"class {child.text} cannot inherit from {parent.text}: inheritance cycle"

end HierarchyError

end Supertypes
