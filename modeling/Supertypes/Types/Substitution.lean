import Supertypes.Limits
import Supertypes.Types.Interner

/-!
# Substitution

A substitution binds type parameters, by identity, to types; expanding a type through it replaces
the bound parameters and leaves the others in place.

- `Substitution.ofArgs` zips the parameters of a class with the arguments of an instance.
- `Substitution.expand` is the expansion. What lies `Limits.expansion` levels deep becomes an
  error `Any`, and the flag of `Expanding` is raised. A type in which nothing changes keeps its
  handle.
- `Substitution.apply`, `Substitution.applyInstance` and `Substitution.applyElements` expand one
  type, instance or tuple from scratch.
-/

namespace Supertypes

/-- Bindings in the order in which their parameters were first bound (`TypeSubstitution`). -/
structure Substitution where
  bindings : List (ParamId × TypeId) := []
  deriving DecidableEq, Repr

/-- An expansion in progress: it interns types, and notes whether something was too deep. -/
abbrev Expanding := StateT Bool Interning

namespace Substitution

/-- Bind `p`; a parameter bound before keeps its place. -/
def insert (s : Substitution) (p : ParamId) (id : TypeId) : Substitution :=
  if s.bindings.any (·.1 = p) then
    ⟨s.bindings.map fun binding => if binding.1 = p then (p, id) else binding⟩
  else ⟨s.bindings ++ [(p, id)]⟩

/-- What `p` is bound to (`get`). -/
def get? (s : Substitution) (p : ParamId) : Option TypeId :=
  (s.bindings.find? (·.1 = p)).map Prod.snd

/-- Number of parameters bound (`len`). -/
def size (s : Substitution) : Nat :=
  s.bindings.length

/-- No parameter is bound (`is_empty`). -/
def isEmpty (s : Substitution) : Bool :=
  s.bindings.isEmpty

/-- Bind parameters in order. -/
def ofList (bindings : List (ParamId × TypeId)) : Substitution :=
  bindings.foldl (fun s (p, id) => s.insert p id) {}

/-- Bind each parameter to the argument in its place (`from_args`). What is left over on either
side has no effect. -/
def ofArgs (params : List Param) (args : List TypeId) : Substitution :=
  ofList ((params.map Param.id).zip args)

/-! ## Expansion -/

/-- Expand the arguments of an instance with `f`. -/
def mapInstance (f : TypeId → Expanding TypeId) (i : Instance) : Expanding Instance := do
  let args := (← getThe Interner).args i
  let expanded ← args.mapM f
  if expanded = args then return i
  else Interner.apply i.head expanded

/-- Expand the items of tuple elements with `f`. -/
def mapElements (f : TypeId → Expanding TypeId) (elements : List (Element TypeId)) :
    Expanding (List (Element TypeId)) :=
  elements.mapM fun e => return { e with item := ← f e.item }

variable [Digest TypeData]

/-- Expand a type, down to `levels` levels (`instantiate`). -/
def expand (s : Substitution) (levels : Nat) (id : TypeId) : Expanding TypeId :=
  if id.isIntrinsic then pure id
  else match levels with
    | 0 => do
      set true
      return .any .fromError
    | levels + 1 => do
      let types ← getThe Interner
      match types.lookup id with
      | some (.param p) => return (s.get? p.id).getD id
      | some (.inst i) =>
        let expanded ← mapInstance (s.expand levels) i
        if expanded = i then return id else Interner.inst expanded
      | some (.tuple list) =>
        let elements := types.elementList list
        let expanded ← mapElements (s.expand levels) elements
        if expanded = elements then return id else Interner.tuple expanded
      | some (.union list) =>
        let members := types.typeList list
        let expanded ← members.mapM (s.expand levels)
        if expanded = members then return id else Interner.union expanded
      | some .never | some (.any _) | none => return id

/-- Expand several types in order. The flag says whether any of them was too deep. -/
def expandAll (s : Substitution) (ids : List TypeId) : Interning (List TypeId × Bool) :=
  (ids.mapM (s.expand Limits.expansion)).run false

/-- Expand a type (`instantiate_type`). -/
def apply (s : Substitution) (id : TypeId) : Interning TypeId :=
  if s.isEmpty then pure id else Prod.fst <$> (s.expand Limits.expansion id).run false

/-- Expand the arguments of an instance (`instantiate_instance`). -/
def applyInstance (s : Substitution) (i : Instance) : Interning Instance :=
  if s.isEmpty then pure i
  else Prod.fst <$> (mapInstance (s.expand Limits.expansion) i).run false

/-- Expand the elements of a tuple (`instantiate_tuple_elements`). -/
def applyElements (s : Substitution) (elements : List (Element TypeId)) :
    Interning (List (Element TypeId)) :=
  Prod.fst <$> (mapElements (s.expand Limits.expansion) elements).run false

end Substitution

end Supertypes
