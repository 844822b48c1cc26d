import Supertypes.Limits

/-!
# Guarded walks

A guard keeps the keys on the path of a recursive walk and counts the steps the walk attempts, so
that a walk over a graph with cycles ends.

- `Guard.enter` steps into a key. It refuses a key that is already on the path, and it refuses
  every key once the path is too deep or the walk has attempted too many steps.
- `Guard.leave` steps out of the key entered last; `Guard.CanLeave` says that a key is that one.
- `Guard.scope` pairs the two around the walk of one key.

A refusal for a limit is remembered in `exceeded`; meeting a cycle is not such a refusal.
-/

namespace Supertypes

/-- The walk that a guard protects; each has its own limits (`RecursionProfile`). -/
inductive Guard.Profile
  /-- Enumeration of derivation paths. -/
  | derivations
  /-- Search for self-reference through tuple shapes. -/
  | tupleShapes
  /-- Limits of the caller's choice. -/
  | custom (depth iterations : Nat)
  deriving DecidableEq, Repr

namespace Guard.Profile

/-- Most keys on the path at a time (`max_depth`). -/
def maxDepth : Profile → Nat
  | .derivations => Limits.derivation
  | .tupleShapes => Limits.shapes
  | .custom depth _ => depth

/-- Most steps that may be attempted (`max_iterations`). -/
def maxIterations : Profile → Nat
  | .custom _ iterations => iterations
  | _ => Limits.steps

end Guard.Profile

/-- What became of an attempt to enter a key (`RecursionResult`). -/
inductive Guard.Entry
  | entered
  /-- The key is on the path already. -/
  | cycle
  | depthExceeded
  | iterationsExceeded
  deriving DecidableEq, Repr

namespace Guard.Entry

/-- The key is now on the path (`is_entered`). -/
def isEntered (e : Entry) : Bool :=
  e = .entered

/-- The attempt was refused for a limit (`is_exceeded`). -/
def isExceeded : Entry → Bool
  | .depthExceeded | .iterationsExceeded => true
  | .entered | .cycle => false

end Guard.Entry

/-- The path of a walk, with its limits and the steps attempted so far (`RecursionGuard`). -/
structure Guard (κ : Type) where
  maxDepth : Nat
  maxIterations : Nat
  /-- Keys entered and not left, the last one first. -/
  path : List κ := []
  /-- Steps attempted, counted up to `Limits.counter`. -/
  iterations : Nat := 0
  /-- Some attempt was refused for a limit. -/
  exceeded : Bool := false
  deriving DecidableEq, Repr

namespace Guard

variable {κ : Type} [DecidableEq κ]

/-- A guard at the start of its walk (`with_profile`). -/
def ofProfile (p : Profile) : Guard κ where
  maxDepth := p.maxDepth
  maxIterations := p.maxIterations

/-- Number of keys on the path. -/
def depth (g : Guard κ) : Nat :=
  g.path.length

/-- The answer to an attempt to enter `k`, once the attempt has been counted. The step limit is
looked at first, then the depth limit, then the path. -/
def verdict (g : Guard κ) (k : κ) : Entry :=
  if g.maxIterations < g.iterations then .iterationsExceeded
  else if g.maxDepth ≤ g.depth then .depthExceeded
  else if k ∈ g.path then .cycle
  else .entered

/-- Count one more step. -/
def count (g : Guard κ) : Guard κ :=
  { g with iterations := min (g.iterations + 1) Limits.counter }

/-- Attempt to enter `k`. Every attempt counts as a step; only an accepted one changes the
path. -/
def enter (g : Guard κ) (k : κ) : Entry × Guard κ :=
  let g := g.count
  let entry := g.verdict k
  (entry, { g with
    path := if entry.isEntered then k :: g.path else g.path
    exceeded := g.exceeded || entry.isExceeded })

/-- The key `k` was entered last, so that it is the one to leave (the assertion in `leave`). -/
def CanLeave (g : Guard κ) (k : κ) : Prop :=
  g.path.head? = some k

instance (g : Guard κ) (k : κ) : Decidable (g.CanLeave k) :=
  inferInstanceAs (Decidable (_ = _))

/-- Step out of the key entered last. -/
def leave (g : Guard κ) : Guard κ :=
  { g with path := g.path.tail }

/-- Run `body` with `k` on the path, and step out of `k` afterwards. A refusal is answered
without running `body`. -/
def scope {m : Type → Type} [Monad m] [MonadStateOf (Guard κ) m] {α : Type} (k : κ) (body : m α) :
    m (Except Entry α) := do
  let (entry, g) := (← getThe (Guard κ)).enter k
  set g
  match entry with
  | .entered =>
    let result ← body
    modifyThe (Guard κ) leave
    pure (.ok result)
  | refused => pure (.error refused)

end Guard

end Supertypes
