import Supertypes.CommandLine.Arguments
import Supertypes.CommandLine.Files
import Supertypes.Report
import Supertypes.Types.Digest

/-!
# Running the command line

From arguments to output: read the fixture, build its hierarchy, answer its questions, lay out
the answers. Reading a file is a parameter, so that all the rest is a function.
-/

namespace Supertypes

/-- Why a run has no output. -/
inductive RunError
  /-- The file cannot be read. -/
  | unreadable (path : String) (e : FileError)
  /-- The file holds no fixture. -/
  | malformed (path : String)
  /-- The classes make no hierarchy. -/
  | hierarchy (path : String) (e : FixtureError)
  | query (e : QueryError)
  deriving DecidableEq, Repr

namespace RunError

/-- The wording of an error. -/
def message : RunError → String
  | .unreadable path e => s!"failed to read fixture: {path}: {e.message}"
  | .malformed path => s!"failed to parse fixture: {path}: {Fixture.malformed}"
  | .hierarchy path e => s!"failed to build hierarchy from {path}: {e.message}"
  | .query e => e.message

end RunError

namespace Arguments

/-- The output for a text that holds a fixture. `terminal` says whether the output goes to a
terminal, where colour is the default. -/
def output (a : Arguments) (source : String) (terminal : Bool) : Except RunError String := do
  let some fixture := Fixture.parse? source | throw (.malformed a.fixture)
  let h ← (Hierarchy.ofClasses fixture.classes).mapError (.hierarchy a.fixture)
  let answers ← (h.answers a.options fixture.queries).mapError .query
  return if a.json then Report.json answers else Report.text (a.pretty.getD terminal) answers

/-- The output for a file, given how files are read. -/
def run (a : Arguments) (read : String → Except FileError String) (terminal : Bool) :
    Except RunError String := do
  let source ← (read a.fixture).mapError (.unreadable a.fixture)
  a.output source terminal

end Arguments

end Supertypes
