import Supertypes.Element

/-!
# Types

The vocabulary of the type tables. A type is named by a handle, `TypeId`; what a handle stands
for is a `TypeData`, one level of structure whose children are handles again.

- `TypeId.never` and `TypeId.any` name the types that need no table. They lie below
  `TypeId.firstUser`; all handles from there on are given out by a table.
- `ClassId` and `ParamId` identify classes and type parameters; parameters of equal name are told
  apart by their identity.
- `Instance` is a class applied to a list of arguments, `Element TypeId` a component of a tuple.

Throughout the library, a name in parentheses at the end of a docstring's first sentence is the
one that the program has for what is defined.
-/

namespace Supertypes

/-- Handle of a type. -/
structure TypeId where
  word : UInt32
  deriving DecidableEq, Repr

/-- Why an `Any` is there. -/
inductive AnyReason
  /-- Written as `Any`. -/
  | explicit
  /-- Implied by a generic class written without arguments. -/
  | unannotated
  /-- In the place of something that could not be established. -/
  | fromError
  deriving DecidableEq, Repr

namespace AnyReason

/-- The words for a reason (`description`). -/
def text : AnyReason → String
  | .explicit => "explicit"
  | .unannotated => "unannotated"
  | .fromError => "from error"

end AnyReason

namespace TypeId

/-- The bottom type. -/
def never : TypeId := ⟨1⟩

/-- The dynamic type, one handle for each reason (`to_type_id`). -/
def any : AnyReason → TypeId
  | .explicit => ⟨2⟩
  | .unannotated => ⟨3⟩
  | .fromError => ⟨4⟩

/-- The least handle that a table gives out. -/
def firstUser : UInt32 := 16

/-- The handle is below those that a table gives out (`is_intrinsic`). -/
def isIntrinsic (id : TypeId) : Bool :=
  id.word < firstUser

/-- The reason of an `Any`. -/
def anyReason? (id : TypeId) : Option AnyReason :=
  if id = any .explicit then some .explicit
  else if id = any .unannotated then some .unannotated
  else if id = any .fromError then some .fromError
  else none

/-- The type is an `Any`, for whatever reason (`is_any`). -/
def isAny (id : TypeId) : Bool :=
  id.anyReason?.isSome

end TypeId

/-- Identity of a class. Classes are numbered from 1; no class has number 0. -/
structure ClassId where
  number : Nat
  deriving DecidableEq, Repr

namespace ClassId

/-- The class is one that a registry may give out (`is_valid`). -/
def isValid (c : ClassId) : Bool :=
  1 ≤ c.number

/-- How messages write a class identity. -/
def text (c : ClassId) : String :=
  s!"ClassId({c.number})"

end ClassId

/-- Identity of a type parameter. -/
structure ParamId where
  number : Nat
  deriving DecidableEq, Repr

namespace ParamId

/-- How messages write a parameter identity. -/
def text (p : ParamId) : String :=
  s!"TypeVarId({p.number})"

end ParamId

/-- A type parameter: its identity and the name it goes by (`TypeParamInfo`). -/
structure Param where
  id : ParamId
  name : String
  deriving DecidableEq, Repr

/-- Handle of an interned list of types. -/
structure TypeListId where
  position : Nat
  deriving DecidableEq, Repr

/-- Handle of an interned list of tuple elements (`TupleListId`). -/
structure ElementListId where
  position : Nat
  deriving DecidableEq, Repr

/-- A class applied to arguments. That they are as many as the class has parameters is up to
whoever builds the instance. -/
structure Instance where
  head : ClassId
  args : TypeListId
  deriving DecidableEq, Repr

namespace Instance

/-- A class applied to nothing. -/
def bare (c : ClassId) : Instance := ⟨c, ⟨0⟩⟩

end Instance

/-- What a handle stands for. -/
inductive TypeData
  | never
  | any (reason : AnyReason)
  | inst (i : Instance)
  | param (p : Param)
  | tuple (elements : ElementListId)
  | union (members : TypeListId)
  deriving DecidableEq, Repr

end Supertypes
