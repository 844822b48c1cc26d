import Supertypes.Classes.Recursion

/-!
# Hierarchies

The classes of a program together with the types that their declarations mention, and the checked
edits by which a hierarchy grows.

- `Hierarchy.register` adds a class, `Hierarchy.addBase` a base edge, and
  `Hierarchy.setTupleShape` declares a class as sugar over a tuple.
- An edit that is refused throws a `HierarchyError` and leaves the classes as they were.

The checks keep every base edge pointing at a registered class, with as many arguments as that
class has parameters and no foreign parameters in them, and they keep the base edges free of
cycles.
-/

namespace Supertypes

/-- Classes and interned types. -/
structure Hierarchy where
  types : Interner := {}
  classes : Registry := .builtin
  deriving Repr

/-- A checked edit. -/
abbrev Edit := ExceptT HierarchyError (StateM Hierarchy)

namespace Hierarchy

/-- Intern types in a hierarchy. -/
def interning {α : Type} (action : Interning α) : StateM Hierarchy α := do
  let h ← get
  let (a, types) := action.run h.types
  set { h with types }
  return a

/-- A type parameter of a new identity. -/
def freshParam (name : String) : StateM Hierarchy Param := do
  let h ← get
  let (p, classes) := h.classes.freshParam name
  set { h with classes }
  return p

/-- The declaration of a class that has to be there. -/
def require (c : ClassId) : Edit ClassInfo := do
  match (← get).classes.get? c with
  | some info => return info
  | none => throw (.unknownClass c)

/-- Register a class with its type parameters, none of which may belong to a class yet. -/
def register (name : String) (params : List Param) (flags : ClassFlags) : Edit ClassId := do
  let h ← get
  if let some (p, owner) := h.classes.taken? params then
    throw (.paramTaken p owner)
  let (c, classes) := h.classes.add { name, params, flags }
  set { h with classes }
  return c

variable [Digest TypeData]

/-- The type parameters that the arguments of an instance mention and the class does not have
(those that `add_base` refuses). -/
def foreignParams (types : Interner) (info : ClassInfo) (base : Instance) : List ParamId :=
  ((types.args base).flatMap types.params).filter fun p => !info.declares p

/-- The least of some identities. -/
def leastParam? (ps : List ParamId) : Option ParamId :=
  (ps.map ParamId.number).min?.map ParamId.mk

/-- Append a base edge to a class (`add_base`). Of several foreign parameters the error names the
least. -/
def addBase (c : ClassId) (base : Instance) : Edit Unit := do
  let info ← require c
  let baseInfo ← require base.head
  let h ← get
  let args := h.types.args base
  if args.length ≠ baseInfo.params.length then
    throw (.arityMismatch c base.head baseInfo.params.length args.length)
  if let some p := leastParam? (foreignParams h.types info base) then
    throw (.foreignParam c p)
  if h.classes.wouldCycle c base.head then
    throw (.inheritanceCycle c base.head)
  set { h with
    classes := h.classes.update c fun info => { info with bases := info.bases ++ [base] } }

/-- Declare a class as sugar over a tuple (`set_tuple_shape`). A class that does not derive from
`tuple` yet gets the tuple class over the joined items as one more base edge, and that edge is
checked like any other. -/
def setTupleShape (c : ClassId) (elements : List (Element TypeId)) : Edit Unit := do
  discard (require c)
  unless (← get).classes.derives c .tuple do
    let base ← ExceptT.lift (interning (tupleFallback .tuple elements))
    addBase c base
  modify fun h =>
    let classes := h.classes.update c fun info =>
      { info with
        shape := some { elements }
        flags := { info.flags with tupleShaped := true } }
    { h with classes := classes.markRecursion h.types }

end Hierarchy

end Supertypes
