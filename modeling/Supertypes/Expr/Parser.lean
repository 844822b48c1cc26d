import Supertypes.Expr.Token

/-!
# Reading type expressions

    union   ::= primary ('|' primary)*
    primary ::= WORD ('[' union (',' union)* ']')? | '(' (item (',' item)* ','?)? ')'
    item    ::= '*'? union

The reader takes one token at a time. Its state holds what has been read so far and the brackets
still open, so it refuses the first token after which no expression could follow.

- `Reader.step` takes one token, `Reader.finish` ends the text.
- `TypeExpr.ofTokens` runs a reader over placed tokens and puts the place into the error.
- `TypeExpr.parse` reads a text.

The program reads by recursive descent, with `parse_union` and `parse_primary` for the first two
rules. A frame stands for a call of `parse_primary` that waits for the union inside its brackets.
-/

namespace Supertypes

/-- An open bracket, with the members of the union in whose midst it was opened and what has been
read inside it. All lists have the last entry first. -/
inductive Frame
  /-- `head[`, with the arguments before the present one. -/
  | args (before : List TypeExpr) (head : String) (done : List TypeExpr)
  /-- `(`, with the elements before the present one, of which it is known whether it is a rest
  element. -/
  | tuple (before : List TypeExpr) (done : List (Element TypeExpr)) (isRest : Bool)

/-- A reader between two tokens. `members` are the complete members of the union being read. -/
inductive Reader
  /-- A type has to follow. -/
  | type (frames : List Frame) (members : List TypeExpr)
  /-- A tuple element has to follow, or the end of the tuple. -/
  | element (frames : List Frame) (before : List TypeExpr) (done : List (Element TypeExpr))
  /-- A word has been read, which arguments may follow. -/
  | word (frames : List Frame) (members : List TypeExpr) (head : String)
  /-- A member has been read to its end. -/
  | member (frames : List Frame) (members : List TypeExpr) (last : TypeExpr)

namespace Reader

/-- The reader before the first token. -/
def start : Reader := .type [] []

/-- The union of `members` and `last`; a single member is no union. -/
def unionOf (members : List TypeExpr) (last : TypeExpr) : TypeExpr :=
  match members with
  | [] => last
  | _ => .union (last :: members).reverse

/-- Why a token is refused: something else is wanted, or the expression is over. -/
inductive Refusal
  | wanted (what : Wanted)
  | trailing
  deriving DecidableEq, Repr

/-- Take a token where a type has to follow. -/
def stepType (frames : List Frame) (members : List TypeExpr) : Token → Except Refusal Reader
  | .word head => .ok (.word frames members head)
  | .openParen => .ok (.element frames members [])
  | _ => .error (.wanted .type)

/-- Take a token where a member has just ended. -/
def stepMember (frames : List Frame) (members : List TypeExpr) (last : TypeExpr) (token : Token) :
    Except Refusal Reader :=
  if token = .bar then .ok (.type frames (last :: members))
  else
    let whole := unionOf members last
    match frames with
    | [] => .error .trailing
    | .args before head done :: frames =>
      match token with
      | .comma => .ok (.type (.args before head (whole :: done) :: frames) [])
      | .closeBracket => .ok (.member frames before (.name head (whole :: done).reverse))
      | _ => .error (.wanted .closeBracket)
    | .tuple before done isRest :: frames =>
      match token with
      | .comma => .ok (.element frames before (⟨whole, isRest⟩ :: done))
      | .closeParen => .ok (.member frames before (.tuple (⟨whole, isRest⟩ :: done).reverse))
      | _ => .error (.wanted .closeParen)

/-- Take one token. -/
def step : Reader → Token → Except Refusal Reader
  | .type frames members, token => stepType frames members token
  | .element frames before done, .closeParen =>
    .ok (.member frames before (.tuple done.reverse))
  | .element frames before done, .star => .ok (.type (.tuple before done true :: frames) [])
  | .element frames before done, token => stepType (.tuple before done false :: frames) [] token
  | .word frames members head, .openBracket => .ok (.type (.args members head [] :: frames) [])
  | .word frames members head, token => stepMember frames members (.name head []) token
  | .member frames members last, token => stepMember frames members last token

/-- End the text where a member has just ended. -/
def finishMember (frames : List Frame) (members : List TypeExpr) (last : TypeExpr) :
    Except Wanted TypeExpr :=
  match frames with
  | [] => .ok (unionOf members last)
  | .args .. :: _ => .error .closeBracket
  | .tuple .. :: _ => .error .closeParen

/-- End the text. -/
def finish : Reader → Except Wanted TypeExpr
  | .type .. | .element .. => .error .type
  | .word frames members head => finishMember frames members (.name head [])
  | .member frames members last => finishMember frames members last

/-- Read the remaining tokens. -/
def run : Reader → List PlacedToken → Except ExprError TypeExpr
  | reader, [] => reader.finish.mapError .unexpectedEnd
  | reader, ⟨token, offset⟩ :: rest =>
    match reader.step token with
    | .ok reader => reader.run rest
    | .error (.wanted what) => .error (.expected what offset)
    | .error .trailing => .error (.trailingInput offset)

end Reader

namespace TypeExpr

/-- The expression that a list of tokens spells. -/
def ofTokens (tokens : List PlacedToken) : Except ExprError TypeExpr :=
  Reader.start.run tokens

/-- The expression that a text spells (`parse_type_expr`). A text with a character that fits
nowhere is refused for the first such character, whatever else is wrong with it. -/
def parse (source : String) : Except ExprError TypeExpr := do
  ofTokens (← Token.ofString source)

end TypeExpr

end Supertypes
