import Supertypes.Classes.Hierarchy
import Supertypes.Expr.Resolve
import Supertypes.Fixture.Basic

/-!
# Hierarchies from fixtures

The classes of a fixture are registered first, then their bases are added, then their tuple
shapes. So a base may name a class declared later, and a shape gives its class the base `tuple`
only if no declared base leads there.

- `Hierarchy.ofClasses` is the whole construction.
- `FixtureError` is the cause of a failure; `FixtureError.message` words it, the outer context
  before the inner one.
-/

namespace Supertypes

/-- Why the classes of a fixture make no hierarchy. -/
inductive FixtureError
  | duplicateClass (name : String)
  | duplicateParam (param name : String)
  | rejectedClass (name : String) (e : HierarchyError)
  /-- The text of a base denotes no instance. -/
  | invalidBase (base name : String) (e : ResolveError)
  | rejectedBase (base name : String) (e : HierarchyError)
  /-- The text of a tuple shape denotes no tuple. -/
  | invalidShape (shape name : String) (e : ResolveError)
  | rejectedShape (name : String) (e : HierarchyError)
  deriving DecidableEq, Repr

namespace FixtureError

/-- The wording of an error. -/
def message : FixtureError → String
  | .duplicateClass name => s!"class `{name}` is defined more than once"
  | .duplicateParam param name => s!"type parameter `{param}` is declared twice by class `{name}`"
  | .rejectedClass name e => s!"failed to register class `{name}`: {e.message}"
  | .invalidBase base name e => s!"invalid base `{base}` of class `{name}`: {e.message}"
  | .rejectedBase base name e => s!"cannot add base `{base}` to class `{name}`: {e.message}"
  | .invalidShape shape name e => s!"invalid tuple shape `{shape}` of class `{name}`: {e.message}"
  | .rejectedShape name e => s!"cannot set tuple shape of class `{name}`: {e.message}"

end FixtureError

/-- Building a hierarchy from declarations. -/
abbrev Building := ExceptT FixtureError (StateM Hierarchy)

namespace Hierarchy

/-- An edit as a step of the construction. -/
def editing {α : Type} (context : HierarchyError → FixtureError) (action : Edit α) : Building α :=
  ExceptT.adapt context action

/-- Resolving an expression as a step of the construction. -/
def resolving {α : Type} (context : ResolveError → FixtureError) (action : Resolving α) :
    Building α :=
  ExceptT.adapt context (ExceptT.mk (interning action.run))

/-- Give the declared type parameters of a class their identities, after the ones in `scope`. -/
def declareParams (name : String) (scope : Scope) : List String → Building Scope
  | [] => return scope
  | param :: rest => do
    if (scope.find param).isSome then
      throw (.duplicateParam param name)
    let p ← ExceptT.lift (freshParam param)
    declareParams name (scope ++ [p]) rest

/-- Register a declared class (the first loop of `from_fixture`). -/
def declareClass (decl : ClassDecl) : Building (ClassId × Scope) := do
  if ((← get).classes.lookup decl.name).isSome then
    throw (.duplicateClass decl.name)
  let scope ← declareParams decl.name [] decl.params
  let c ← editing (.rejectedClass decl.name) (register decl.name scope {})
  return (c, scope)

variable [Digest TypeData]

/-- Add the declared bases of a class (the second loop of `from_fixture`). -/
def declareBases (decl : ClassDecl) (c : ClassId) (scope : Scope) : Building Unit :=
  decl.bases.forM fun base => do
    let r := (← get).classes
    let i ← resolving (.invalidBase base decl.name)
      (Registry.resolving (r.resolveInstance scope) base)
    editing (.rejectedBase base decl.name) (addBase c i)

/-- Set the declared tuple shape of a class (the third loop of `from_fixture`). -/
def declareShape (decl : ClassDecl) (c : ClassId) (scope : Scope) : Building Unit := do
  if let some shape := decl.tuple then
    let r := (← get).classes
    let elements ← resolving (.invalidShape shape decl.name)
      (Registry.resolving (r.resolveTuple scope) shape)
    editing (.rejectedShape decl.name) (setTupleShape c elements)

/-- Declare classes in three rounds. -/
def declareAll (decls : List ClassDecl) : Building Unit := do
  let declared ← decls.mapM fun decl => return (decl, ← declareClass decl)
  declared.forM fun (decl, c, scope) => declareBases decl c scope
  declared.forM fun (decl, c, scope) => declareShape decl c scope

/-- The hierarchy of declared classes (`from_fixture`). -/
def ofClasses (decls : List ClassDecl) : Except FixtureError Hierarchy :=
  match (declareAll decls).run.run {} with
  | (.ok (), h) => .ok h
  | (.error e, _) => .error e

end Hierarchy

end Supertypes
