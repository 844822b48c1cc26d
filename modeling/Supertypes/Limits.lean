/-!
# Limits

The bounds of every walk over a class hierarchy or a type expression, in one place.

- `Limits.expansion`: how deep an expression is expanded through a substitution.
- `Limits.derivation`: how many base edges a derivation path has when nothing else is asked for.
- `Limits.shapes`: how deep the search for self-reference through tuple shapes goes.
- `Limits.steps`: how many steps one bounded walk may attempt.
-/

namespace Supertypes.Limits

/-- An expression is expanded through this many levels; what lies deeper becomes an error
`Any` (`MAX_INSTANTIATION_DEPTH`). -/
def expansion : Nat := 50

/-- Longest derivation path, in base edges, that the command line follows by default
(`MAX_DERIVATION_DEPTH`). -/
def derivation : Nat := 256

/-- Deepest chain of tuple-shaped classes followed when looking for self-reference
(`MAX_TUPLE_RECURSION_CHECK_DEPTH`). -/
def shapes : Nat := 64

/-- Most steps that any one bounded walk attempts (`MAX_TRAVERSAL_ITERATIONS`). -/
def steps : Nat := 100000

/-- Step counters stop here instead of running over. -/
def counter : Nat := UInt32.size - 1

end Supertypes.Limits
