import Supertypes.Element

/-!
# Type expressions

The written form of a type, before its names are given a meaning, and the ways in which a text
can fail to be one.

- `TypeExpr`: a name, possibly applied to arguments; a parenthesised tuple; a union.
- `ExprError`: the cause of a failed reading, with its place as a byte offset;
  `ExprError.message` words it.
-/

namespace Supertypes

/-- A type as it is written. -/
inductive TypeExpr
  /-- A class, a type parameter or `Any`, applied to arguments unless there are none. -/
  | name (head : String) (args : List TypeExpr)
  /-- A parenthesised tuple. -/
  | tuple (elements : List (Element TypeExpr))
  /-- Alternatives in the order written, at least two of them. -/
  | union (members : List TypeExpr)

/-- What a reader may be waiting for when something else comes. -/
inductive Wanted
  | type
  | closeBracket
  | closeParen
  deriving DecidableEq, Repr

namespace Wanted

/-- The words for it in a message. -/
def text : Wanted → String
  | .type => "a type"
  | .closeBracket => "']'"
  | .closeParen => "')'"

end Wanted

/-- Why a text is not a type expression (`TypeExprError`). Offsets count bytes. -/
inductive ExprError
  /-- A character that can stand in no token. -/
  | unexpectedChar (char : Char) (offset : Nat)
  /-- A token in the place of something else. -/
  | expected (wanted : Wanted) (offset : Nat)
  /-- The text ends too early. -/
  | unexpectedEnd (wanted : Wanted)
  /-- A token after a complete expression. -/
  | trailingInput (offset : Nat)
  deriving DecidableEq, Repr

namespace ExprError

/-- The wording of an error. -/
def message : ExprError → String
  | .unexpectedChar char offset => s!"unexpected character '{char}' at offset {offset}"
  | .expected wanted offset => s!"expected {wanted.text} at offset {offset}"
  | .unexpectedEnd wanted => s!"unexpected end of input, expected {wanted.text}"
  | .trailingInput offset => s!"unexpected trailing input at offset {offset}"

end ExprError

end Supertypes
