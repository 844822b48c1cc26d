import Supertypes.Classes.View
import Supertypes.Guard

/-!
# Derivation paths

A derivation path from a class to one of its ancestors is a sequence of base edges, written as
the classes they lead to. Paths come in the order in which the edges are declared, and equal
edges give equal paths.

- `ClassView.allPaths` lists all paths. It is meant for hierarchies without cycles, where the
  number of classes with base edges bounds the length of a path.
- `ClassView.boundedPaths` lists the paths of at most a given number of edges. A guard keeps it
  from entering a class twice on one path, so it ends on every hierarchy.
- `ClassView.paths` is the one or the other.

The program has one recursion, `derivation_paths_inner`, for both, with or without a guard.
-/

namespace Supertypes.ClassView

/-- The paths from `c` to `target` with at most `length` edges. -/
def pathsFrom (view : ClassView) (target : ClassId) : Nat → ClassId → List (List ClassId)
  | 0, _ => []
  | length + 1, c =>
    (view.bases c).flatMap fun base =>
      if base.head = target then [[target]]
      else (view.pathsFrom target length base.head).map (base.head :: ·)

/-- All paths from `c` to `target`. -/
def allPaths (view : ClassView) (c target : ClassId) : List (List ClassId) :=
  view.pathsFrom target view.size c

/-- The paths from `c` to `target` with at most `length` edges, as far as the guard permits. -/
def guardedPaths (view : ClassView) (target : ClassId) :
    Nat → ClassId → StateM (Guard ClassId) (List (List ClassId))
  | 0, _ => pure []
  | length + 1, c => do
    let found ← (view.bases c).mapM fun base => do
      if base.head = target then return [[target]]
      match ← Guard.scope base.head (view.guardedPaths target length base.head) with
      | .ok tails => return tails.map (base.head :: ·)
      | .error _ => return []
    return found.flatten

/-- The guard of a search for paths of at most `limit` edges. It holds the classes between the
two ends, which are one fewer than the edges. -/
def pathGuard (limit : Nat) : Guard ClassId :=
  .ofProfile (.custom (limit - 1) Guard.Profile.derivations.maxIterations)

/-- The paths from `c` to `target` with at most `limit` edges. -/
def boundedPaths (view : ClassView) (limit : Nat) (c target : ClassId) : List (List ClassId) :=
  ((view.guardedPaths target limit c).run (pathGuard limit)).1

/-- The paths from `c` to `target`, within a limit on their number of edges if there is one
(`class_derivation_paths`). -/
def paths (view : ClassView) (limit : Option Nat) (c target : ClassId) : List (List ClassId) :=
  match limit with
  | none => view.allPaths c target
  | some limit => view.boundedPaths limit c target

end Supertypes.ClassView
