import Supertypes.Unicode.Blank

/-!
# Log settings

What the environment says about logging: which events to log, and in which layout. There is no
logging unless one of two variables holds a filter.
-/

namespace Supertypes

/-- Layout of log events. -/
inductive LogFormat
  /-- Flat lines. -/
  | text
  /-- Indented spans. -/
  | tree
  /-- One JSON object for each event. -/
  | json
  deriving DecidableEq, Repr

namespace LogFormat

/-- The layout of a name, in any case and with blanks around it; flat lines for an unknown
name. -/
def ofName (name : String) : LogFormat :=
  let name := (Unicode.trim name).toList.map Char.toLower
  if name = "tree".toList then .tree
  else if name = "json".toList then .json
  else .text

end LogFormat

/-- The filter directives and the layout (`LogConfig`). -/
structure LogSettings where
  directives : String
  format : LogFormat
  deriving DecidableEq, Repr

namespace LogSettings

/-- The settings that environment variables make: the program's own filter variable, the general
one, which counts only without the former, and the layout (`from_vars`). -/
def ofVariables (own general format : Option String) : Option LogSettings :=
  (own.or general).map fun directives => ⟨directives, format.elim .text .ofName⟩

end LogSettings

end Supertypes
