import Supertypes.Classes.View
import Supertypes.Search

/-!
# Class registries

The classes of a program. Class number `n` is the `n`th one registered; the first two are
`object` and `tuple`, whose only base is `object`.

- `Registry.get?`, `Registry.lookup` and `Registry.owner?` find a class by identity, by name, and
  by one of its type parameters; `Registry.taken?` looks for a parameter that some class has.
- `Registry.derives` says whether a class is a proper ancestor of another.
- `Registry.add`, `Registry.update` and `Registry.freshParam` are the raw changes that checked
  edits are made of.
- `Registry.view` is the registry as the mapper reads it.
-/

namespace Supertypes

/-- Classes by number, with an index of their names and one of their type parameters
(`ClassRegistry`). -/
structure Registry where
  classes : List ClassInfo
  /-- The first class registered under each name. -/
  names : List (String × ClassId)
  /-- The class that each type parameter belongs to. -/
  owners : List (ParamId × ClassId)
  /-- The number of the next type parameter. -/
  nextParam : Nat
  deriving DecidableEq, Repr

namespace Registry

/-! ## Reading -/

/-- The declaration of a class (`get`). -/
def get? (r : Registry) : ClassId → Option ClassInfo
  | ⟨0⟩ => none
  | ⟨n + 1⟩ => r.classes[n]?

/-- The class has been registered. -/
def contains (r : Registry) (c : ClassId) : Bool :=
  (r.get? c).isSome

/-- Number of classes, the built-in ones included (`len`). -/
def size (r : Registry) : Nat :=
  r.classes.length

/-- No class has been registered (`is_empty`). -/
def isEmpty (r : Registry) : Bool :=
  r.classes.isEmpty

/-- The first class registered under a name (`lookup_by_name`). -/
def lookup (r : Registry) (name : String) : Option ClassId :=
  (r.names.find? (·.1 = name)).map Prod.snd

/-- The class that a type parameter belongs to (a lookup in `param_owners`). -/
def owner? (r : Registry) (p : ParamId) : Option ClassId :=
  (r.owners.find? (·.1 = p)).map Prod.snd

/-- The first of some type parameters that belongs to a class, with that class (the check that
`register` starts with). -/
def taken? (r : Registry) (params : List Param) : Option (ParamId × ClassId) :=
  params.findSome? fun p => (r.owner? p.id).map (p.id, ·)

/-- The type parameters of a class; none for an unknown class (`type_params`). -/
def params (r : Registry) (c : ClassId) : List Param :=
  (r.get? c).elim [] ClassInfo.params

/-- The base edges of a class; none for an unknown class. -/
def bases (r : Registry) (c : ClassId) : List Instance :=
  (r.get? c).elim [] ClassInfo.bases

/-- The tuple that a class is sugar over (`tuple_shape`). -/
def shape? (r : Registry) (c : ClassId) : Option TupleShape :=
  (r.get? c).bind ClassInfo.shape

/-- The direct base classes of a class, one for each edge. -/
def parents (r : Registry) (c : ClassId) : List ClassId :=
  (r.bases c).map Instance.head

/-- Number of base edges of all classes. -/
def edgeCount (r : Registry) : Nat :=
  (r.classes.flatMap ClassInfo.bases).length

/-- Whether `ancestor` can be reached from `c` by one or more base edges (`is_derived_from`). A
class does not derive from itself. Every class met is the target of an edge, so the search needs
no more steps than there are edges. The program stops when it meets `ancestor`, and the search
here goes on. -/
def derives (r : Registry) (c ancestor : ClassId) : Bool :=
  ancestor ∈ Search.reachable r.parents r.edgeCount (r.parents c)

/-- Whether a base edge from `child` to `parent` would make a class its own ancestor
(`would_create_inheritance_cycle`). -/
def wouldCycle (r : Registry) (child parent : ClassId) : Bool :=
  child = parent || r.derives parent child

/-- The registry as a view. -/
def view (r : Registry) : ClassView where
  name? c := (r.get? c).map ClassInfo.name
  params := r.params
  bases := r.bases
  shape? := r.shape?
  tuple := .tuple
  size := r.size

/-! ## Changing -/

/-- A type parameter of a new identity (`fresh_type_param`). -/
def freshParam (r : Registry) (name : String) : Param × Registry :=
  (⟨⟨r.nextParam⟩, name⟩, { r with nextParam := r.nextParam + 1 })

/-- Append a class, index its name unless the name is taken, and its type parameters (`insert`,
and what `register` does after it). -/
def add (r : Registry) (info : ClassInfo) : ClassId × Registry :=
  let c : ClassId := ⟨r.size + 1⟩
  (c, { r with
    classes := r.classes ++ [info]
    names := if (r.lookup info.name).isSome then r.names else r.names ++ [(info.name, c)]
    owners := r.owners ++ info.params.map fun p => (p.id, c) })

/-- Change the declaration of a class. -/
def update (r : Registry) (c : ClassId) (f : ClassInfo → ClassInfo) : Registry :=
  match c with
  | ⟨0⟩ => r
  | ⟨n + 1⟩ => { r with classes := r.classes.modify n f }

/-- A registry with nothing in it. -/
def empty : Registry where
  classes := []
  names := []
  owners := []
  nextParam := 1

/-- The registry that holds `object` and `tuple[T_co]` alone. -/
def builtin : Registry :=
  let (_, r) := empty.add { name := "object", params := [], flags := { builtin := true } }
  let (element, r) := r.freshParam "T_co"
  let (_, r) := r.add { name := "tuple", params := [element], flags := { builtin := true } }
  r.update .tuple fun info => { info with bases := [.bare .object] }

end Registry

end Supertypes
