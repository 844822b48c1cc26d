import Supertypes.Search
import Supertypes.Types.Interner

/-!
# Walks over types

What can be reached from a type through arguments, tuple elements and union members.

- `Interner.children` lists the direct children of a type.
- `Interner.walk` lists every known type that can be reached, once each and in the order of a
  depth-first walk; a caller that wants to stop early takes a front part of it.
- `Interner.mentionsParam`, `Interner.params` and `Interner.classes` read a walk.
-/

namespace Supertypes.Interner

variable [Digest TypeData]

/-- The types that a structure consists of. -/
def childrenOf (types : Interner) : TypeData → List TypeId
  | .inst i => types.args i
  | .tuple elements => (types.elementList elements).map Element.item
  | .union members => types.typeList members
  | .never | .any _ | .param _ => []

/-- The direct children of a type, in order (`for_each_child`). -/
def children (types : Interner) (id : TypeId) : List TypeId :=
  (types.lookup id).elim [] types.childrenOf

/-- The handle stands for something. -/
def isKnown (types : Interner) (id : TypeId) : Bool :=
  (types.lookup id).isSome

/-- At most so many handles stand for something: the stored structures, `Never`, and one `Any`
for each reason. -/
def knownBound (types : Interner) : Nat :=
  types.size + 4

/-- The known types that can be reached from `root`, itself included (`walk_referenced_types`).
The program hands them to a callback one by one, which may end the walk. -/
def walk (types : Interner) (root : TypeId) : List TypeId :=
  Search.reachable (fun id => (types.children id).filter types.isKnown) types.knownBound
    ([root].filter types.isKnown)

/-- The type parameter that a handle stands for. -/
def param? (types : Interner) (id : TypeId) : Option Param :=
  match types.lookup id with
  | some (.param p) => some p
  | _ => none

/-- Some type parameter occurs in the type (`contains_type_vars`). -/
def mentionsParam (types : Interner) (root : TypeId) : Bool :=
  (types.walk root).any fun id => (types.param? id).isSome

/-- The identities of the type parameters that occur in the type (`collect_type_vars`). -/
def params (types : Interner) (root : TypeId) : List ParamId :=
  Search.firstSeen ((types.walk root).filterMap fun id => (types.param? id).map Param.id)

/-- The classes of the instances that occur in the type, in the order of the walk
(`referenced_classes`). -/
def classes (types : Interner) (root : TypeId) : List ClassId :=
  Search.firstSeen ((types.walk root).filterMap fun id => (types.instance? id).map Instance.head)

end Supertypes.Interner
