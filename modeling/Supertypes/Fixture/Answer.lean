import Supertypes.Ancestry.Mapper
import Supertypes.Fixture.Build
import Supertypes.Types.Text
import Supertypes.Unicode.Blank

/-!
# Answers to queries

The questions of a fixture answered in its hierarchy, as texts.

- `Hierarchy.answer` answers one question, `Hierarchy.answers` a list of them; the first question
  that makes no sense ends it.
- `QueryError` is the cause of that; `QueryError.message` words it. Questions count from 0.
-/

namespace Supertypes

/-- How questions are answered (`RunOptions`). -/
structure AnswerOptions where
  /-- Give one result for each derivation path instead of the first only. -/
  all : Bool := false
  /-- Write each `Any` with its reason. -/
  reasons : Bool := false
  /-- Most edges of the derivation paths to follow. -/
  limit : Option Nat := none
  deriving DecidableEq, Repr

/-- The answer to one question (`QueryResult`). -/
structure Answer where
  subject : String
  target : String
  results : List String
  deriving DecidableEq, Repr

/-- Why a question makes no sense. -/
inductive QueryError
  | invalidSubject (index : Nat) (subject : String) (e : ResolveError)
  | invalidTarget (index : Nat) (target : String) (e : ResolveError)
  deriving DecidableEq, Repr

namespace QueryError

/-- The wording of an error. -/
def message : QueryError → String
  | .invalidSubject index subject e => s!"query {index}: invalid instance `{subject}`: {e.message}"
  | .invalidTarget index target e => s!"query {index}: invalid target `{target}`: {e.message}"

end QueryError

/-- Answering, which interns types and may fail. -/
abbrev Answering := ExceptT QueryError Interning

/-- A way to put instances into words. -/
def Writer := TypePrinter → Instance → String

variable [Digest TypeData]

namespace Writer

/-- The members of a union in the order in which the tables hold them. -/
def plain : Writer := TypePrinter.instanceText

/-- The members of a union in the order of their texts. -/
def sorted : Writer := TypePrinter.sortedInstanceText

end Writer

namespace Registry

/-- Answer the question number `index` (the body of the loop in `run_queries`). Blanks around the
name of the target are ignored. -/
def answer (r : Registry) (write : Writer) (options : AnswerOptions) (index : Nat) (query : Query) :
    Answering Answer := do
  let i ← ExceptT.adapt (.invalidSubject index query.subject)
    (resolving (r.resolveInstance []) query.subject)
  let target := Unicode.trim query.target
  let c ← match r.named target with
    | .ok c => pure c
    | .error e => throw (.invalidTarget index query.target e)
  let mapper : Mapper := { view := r.view, limit := options.limit }
  let mapped ← ExceptT.lift
    (if options.all then mapper.all i c else return [← mapper.supertype i c])
  let printer : TypePrinter := { types := ← get, view := r.view, reasons := options.reasons }
  return ⟨write printer i, target, mapped.map (write printer)⟩

/-- Answer questions, of which the first has number `index`. -/
def answersFrom (r : Registry) (write : Writer) (options : AnswerOptions) :
    Nat → List Query → Answering (List Answer)
  | _, [] => return []
  | index, query :: rest => do
    let first ← r.answer write options index query
    return first :: (← r.answersFrom write options (index + 1) rest)

end Registry

namespace Hierarchy

/-- Answer questions in a hierarchy (`run_queries`). -/
def answers (h : Hierarchy) (options : AnswerOptions) (queries : List Query) :
    Except QueryError (List Answer) :=
  ((h.classes.answersFrom .plain options 0 queries).run.run h.types).1

/-- The answers up to the order of union members, whose texts are put in order. This is how
answers that come from different tables are compared. -/
def sortedAnswers (h : Hierarchy) (options : AnswerOptions) (queries : List Query) :
    Except QueryError (List Answer) :=
  ((h.classes.answersFrom .sorted options 0 queries).run.run h.types).1

end Hierarchy

end Supertypes
