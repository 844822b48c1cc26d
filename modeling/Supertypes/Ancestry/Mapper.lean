import Supertypes.Ancestry.Paths
import Supertypes.Types.Substitution
import Supertypes.Types.Traversal

/-!
# Instances seen as their supertypes

What an instance of a class looks like as an instance of an ancestor. The arguments go up edge by
edge: an edge is expanded through the environment of the instance, which binds the parameters of
its class to its arguments.

- `Mapper.direct` goes up one edge, `Mapper.along` a derivation path.
- `Mapper.supertypes` lists the results along every path, and `Mapper.all` does so for the class
  of the instance too.
- `Mapper.supertype` answers one instance.

Nothing here fails. An ancestor that cannot be reached gets error `Any`s for arguments, and a
class without an edge to the class asked for gets unannotated ones.
-/

namespace Supertypes

/-- A hierarchy to map in, and the most edges of the paths to follow (`SupertypeMapper` with its
`MapperOptions`). -/
structure Mapper where
  view : ClassView
  limit : Option Nat := none

namespace Mapper

/-- The parameters of the class of `i`, in order, bound to its arguments
(`instance_to_type_environment`). -/
def environment (m : Mapper) (types : Interner) (i : Instance) : Substitution :=
  .ofArgs (m.view.params i.head) (types.args i)

/-- A class with an `Any` for each parameter (`any_instance`). -/
def anyInstance (m : Mapper) (c : ClassId) (reason : AnyReason) : Interning Instance :=
  Interner.apply c (List.replicate (m.view.arity c) (.any reason))

variable [Digest TypeData]

/-- The edges from the class of `i` to `target`, expanded for `i`: one result for each edge
(`map_instance_to_direct_supertypes`). Without such an edge the answer is `target` with
unannotated arguments. -/
def direct (m : Mapper) (i : Instance) (target : ClassId) : Interning (List Instance) := do
  match (m.view.bases i.head).filter (·.head = target) with
  | [] => return [← m.anyInstance target .unannotated]
  | edges =>
    let env := m.environment (← get) i
    edges.mapM env.applyInstance

/-- Go up along a path (the two inner loops of `map_instance_to_supertypes`). Where a step has
several edges, each result goes up each of them. -/
def along (m : Mapper) (i : Instance) (path : List ClassId) : Interning (List Instance) :=
  path.foldlM (fun reached target => return (← reached.mapM (m.direct · target)).flatten) [i]

/-- The results along all paths to `target`; never none, for without a path the answer is
`target` with error arguments (`map_instance_to_supertypes`). -/
def supertypes (m : Mapper) (i : Instance) (target : ClassId) : Interning (List Instance) := do
  match (← (m.view.paths m.limit i.head target).mapM (m.along i)).flatten with
  | [] => return [← m.anyInstance target .fromError]
  | results => return results

/-- Like `supertypes`, but as its own class an instance is just itself
(`all_instantiations_as`). -/
def all (m : Mapper) (i : Instance) (target : ClassId) : Interning (List Instance) :=
  if i.head = target then pure [i] else m.supertypes i target

/-- A class with a tuple shape that has parameters in it is a tuple by its shape: the parameters
are filled in first and the items joined afterwards (`map_generic_tuple_to_tuple_base`). A
recursive shape is not expanded. -/
def viaShape (m : Mapper) (i : Instance) : Interning (Option Instance) := do
  let types ← get
  match m.view.shape? i.head with
  | none => return none
  | some shape =>
    if !(shape.elements.any fun e => types.mentionsParam e.item) || shape.isRecursive then
      return none
    let elements ← (m.environment types i).applyElements shape.elements
    return some (← tupleFallback m.view.tuple elements)

/-- The instance of `target` that `i` is: along the first path if there are several
(`map_instance_to_supertype`, which `instantiate_as` calls). -/
def supertype (m : Mapper) (i : Instance) (target : ClassId) : Interning Instance := do
  if i.head = target then
    return i
  if target = m.view.tuple then
    if let some mapped ← m.viaShape i then
      return mapped
  if (m.view.params target).isEmpty then
    return .bare target
  match ← m.supertypes i target with
  | first :: _ => return first
  | [] => m.anyInstance target .fromError

end Mapper

end Supertypes
