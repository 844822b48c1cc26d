import Supertypes.Fixture.Answer
import Supertypes.Json.Printer

/-!
# Reports

Answers laid out as text or as JSON.

- `Report.text` writes a question with its one result on a line, or several results on lines of
  their own below it. In colour, the instance is bold, the target cyan, and results are green, or
  yellow where they mention `Any`.
- `Report.json` writes the answers as a JSON array.
-/

namespace Supertypes

/-- A way to set off text on a terminal. -/
inductive Style
  | bold
  | cyan
  | yellow
  | green
  deriving DecidableEq, Repr

namespace Style

/-- The escape sequence that ends every style. -/
def reset : List Char := ['\x1b', '[', '0', 'm']

/-- The escape sequence that starts a style. -/
def start : Style → List Char
  | .bold => ['\x1b', '[', '1', 'm']
  | .cyan => ['\x1b', '[', '3', '6', 'm']
  | .yellow => ['\x1b', '[', '3', '3', 'm']
  | .green => ['\x1b', '[', '3', '2', 'm']

/-- Start the style again after each reset inside a text. -/
def reopen (style : Style) : List Char → List Char
  | '\x1b' :: '[' :: '0' :: 'm' :: rest => reset ++ style.start ++ style.reopen rest
  | c :: rest => c :: style.reopen rest
  | [] => []

/-- A text in a style. -/
def paint (style : Style) (s : String) : String :=
  String.ofList (style.start ++ style.reopen s.toList ++ reset)

end Style

namespace Report

/-- `word` occurs in a text. -/
def occurs (word : List Char) : List Char → Bool
  | [] => word.isEmpty
  | c :: rest => word.isPrefixOf (c :: rest) || occurs word rest

/-- The style of a result (`paint_result`). -/
def resultStyle (result : String) : Style :=
  if occurs "Any".toList result.toList then .yellow else .green

/-- A text, in a style if the report is in colour (`paint_instance` and its companions). -/
def paint (color : Bool) (style : Style) (s : String) : String :=
  if color then style.paint s else s

/-- One answer (`format_result`). -/
def answerText (color : Bool) (a : Answer) : String :=
  let header := paint color .bold a.subject ++ " as " ++ paint color .cyan a.target ++ ":"
  let result (s : String) : String := paint color (resultStyle s) s
  match a.results with
  | [single] => header ++ " " ++ result single
  | results => header ++ String.join (results.map fun s => "\n  - " ++ result s)

/-- All answers, each starting on a new line (`render`). -/
def text (color : Bool) (answers : List Answer) : String :=
  "\n".intercalate (answers.map (answerText color))

/-- One answer as JSON. -/
def answerJson (a : Answer) : Json :=
  .object [("instance", .string a.subject), ("target", .string a.target),
    ("results", .array (a.results.map .string))]

/-- All answers as JSON (`render_json`). -/
def json (answers : List Answer) : String :=
  (Json.array (answers.map answerJson)).text

end Report

end Supertypes
