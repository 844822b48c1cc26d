import Supertypes.Classes.Registry
import Supertypes.Expr.Parser

/-!
# The meaning of type expressions

Names in a type expression mean type parameters in scope, then `Any` and `Never`, then classes.

- `TypeExpr.resolve` gives the type that an expression denotes, `TypeExpr.resolveInstance` the
  instance, where it has to be one.
- A generic class without arguments has unannotated `Any`s for arguments.
- `ResolveError` is the cause of a failure; `ResolveError.message` words it.
-/

namespace Supertypes

/-- The type parameters in scope, found by name; of equal names the first counts. -/
abbrev Scope := List Param

namespace Scope

/-- The type parameter of a name. -/
def find (scope : Scope) (name : String) : Option Param :=
  List.find? (fun p => p.name = name) scope

end Scope

/-- Why an expression has no meaning. -/
inductive ResolveError
  /-- The text is no expression. -/
  | malformed (e : ExprError)
  /-- A tuple or union in the place of an instance. -/
  | notAnInstance
  /-- A type parameter in the place of a class. -/
  | notAClass (param : String)
  | unknownClass (name : String)
  | wrongArity (name : String) (expected found : Nat)
  /-- Something else in the place of a tuple. -/
  | notATuple
  deriving DecidableEq, Repr

namespace ResolveError

/-- The wording of an error. -/
def message : ResolveError → String
  | .malformed e => e.message
  | .notAnInstance => "expected a class instance, found a tuple or union"
  | .notAClass param => s!"type parameter `{param}` is not a class"
  | .unknownClass name => s!"unknown class `{name}`"
  | .wrongArity name expected found =>
    s!"class `{name}` expects {expected} type arguments, got {found}"
  | .notATuple => "expected a parenthesized tuple such as `(T, str)`"

end ResolveError

/-- Giving a meaning to an expression, which interns types and may fail. -/
abbrev Resolving := ExceptT ResolveError Interning

namespace Registry

/-- The class of a name (`lookup_class`). -/
def named (r : Registry) (name : String) : Except ResolveError ClassId :=
  match r.lookup name with
  | some c => .ok c
  | none => .error (.unknownClass name)

/-- A class applied to `count` arguments, which are resolved only if their number fits. -/
def resolveApplied (r : Registry) (scope : Scope) (name : String) (count : Nat)
    (args : Resolving (List TypeId)) : Resolving Instance := do
  if (scope.find name).isSome then
    throw (.notAClass name)
  let c ← liftExcept (r.named name)
  let arity := (r.params c).length
  if count = 0 ∧ 0 < arity then
    return ← ExceptT.lift (Interner.apply c (List.replicate arity (.any .unannotated)))
  if count ≠ arity then
    throw (.wrongArity name arity count)
  ExceptT.lift (Interner.apply c (← args))
where
  /-- The failure or result of a plain computation. -/
  liftExcept {α : Type} (result : Except ResolveError α) : Resolving α :=
    ExceptT.mk (pure result)

variable [Digest TypeData]

/-- What a name without arguments denotes if it is no class: a type parameter, `Any` or
`Never`. -/
def resolvePlain (scope : Scope) (name : String) : Option (Interning TypeId) :=
  match scope.find name with
  | some p => some (Interner.param p)
  | none =>
    if name = "Any" then some (pure (.any .explicit))
    else if name = "Never" then some (pure .never)
    else none

mutual

/-- The type that an expression denotes (`resolve_type`). -/
def resolve (r : Registry) (scope : Scope) : TypeExpr → Resolving TypeId
  | .name head args => do
    if args.isEmpty then
      if let some plain := resolvePlain scope head then
        return ← ExceptT.lift plain
    let i ← r.resolveApplied scope head args.length (resolveList r scope args)
    ExceptT.lift (Interner.inst i)
  | .tuple elements => do
    ExceptT.lift (Interner.tuple (← resolveElements r scope elements))
  | .union members => do
    ExceptT.lift (Interner.union (← resolveList r scope members))

/-- The types that expressions denote, in order. -/
def resolveList (r : Registry) (scope : Scope) : List TypeExpr → Resolving (List TypeId)
  | [] => return []
  | e :: rest => do
    let id ← resolve r scope e
    return id :: (← resolveList r scope rest)

/-- The tuple elements that expressions denote, in order (`resolve_tuple_items`). -/
def resolveElements (r : Registry) (scope : Scope) :
    List (Element TypeExpr) → Resolving (List (Element TypeId))
  | [] => return []
  | ⟨e, isRest⟩ :: rest => do
    let id ← resolve r scope e
    return ⟨id, isRest⟩ :: (← resolveElements r scope rest)

end

/-- The instance that an expression denotes (`resolve_instance`). -/
def resolveInstance (r : Registry) (scope : Scope) : TypeExpr → Resolving Instance
  | .name head args => r.resolveApplied scope head args.length (r.resolveList scope args)
  | .tuple _ | .union _ => throw .notAnInstance

/-- The elements of the tuple that an expression denotes. -/
def resolveTuple (r : Registry) (scope : Scope) : TypeExpr → Resolving (List (Element TypeId))
  | .tuple elements => r.resolveElements scope elements
  | .name .. | .union _ => throw .notATuple

/-- Read a text and give a meaning to it. -/
def resolving {α : Type} (meaning : TypeExpr → Resolving α) (source : String) : Resolving α :=
  match TypeExpr.parse source with
  | .ok e => meaning e
  | .error e => throw (.malformed e)

end Registry

end Supertypes
