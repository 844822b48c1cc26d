import Supertypes.Expr.Basic
import Supertypes.Unicode.Alphabetic
import Supertypes.Unicode.Blank
import Supertypes.Unicode.Numeric

/-!
# Tokens of type expressions

Cutting a text into words and marks, each with the byte offset at which it starts.

- `Token.ofChar?` and the two classes `startsWord` and `continuesWord` say what a character can
  do.
- `Token.scan` goes through the characters once. A word is read as far as it goes, blanks between
  tokens are skipped, and the first character that can do neither is an error.
-/

namespace Supertypes

/-- A word or one of the marks. -/
inductive Token
  | word (text : String)
  | openBracket
  | closeBracket
  | openParen
  | closeParen
  | comma
  | bar
  | star
  deriving DecidableEq, Repr

/-- A token and the byte offset of its first character. -/
structure PlacedToken where
  token : Token
  offset : Nat
  deriving DecidableEq, Repr

namespace Token

/-- The mark that a character is. -/
def ofChar? : Char → Option Token
  | '[' => some .openBracket
  | ']' => some .closeBracket
  | '(' => some .openParen
  | ')' => some .closeParen
  | ',' => some .comma
  | '|' => some .bar
  | '*' => some .star
  | _ => none

/-- Words start with a letter or an underscore. -/
def startsWord (c : Char) : Bool :=
  Unicode.isAlphabetic c || c = '_'

/-- Words go on with letters, digits, underscores and dots. -/
def continuesWord (c : Char) : Bool :=
  Unicode.isAlphabetic c || Unicode.isNumeric c || c = '_' || c = '.'

/-- A word that is being read: its offset, and its characters so far, the last one first. -/
structure Partial where
  offset : Nat
  letters : List Char

/-- The token of a word that has ended; nothing if none was being read. -/
def Partial.close : Option Partial → List PlacedToken
  | none => []
  | some w => [⟨.word (String.ofList w.letters.reverse), w.offset⟩]

/-- Read the characters from `offset` on, in the middle of the word `open?` or between tokens. -/
def scan (offset : Nat) (open? : Option Partial) : List Char → Except ExprError (List PlacedToken)
  | [] => .ok (Partial.close open?)
  | c :: rest =>
    let next := offset + c.utf8Size
    match open?.filter fun _ => continuesWord c with
    | some w => scan next (some { w with letters := c :: w.letters }) rest
    | none =>
      if Unicode.isBlank c then
        return Partial.close open? ++ (← scan next none rest)
      else if let some mark := ofChar? c then
        return Partial.close open? ++ ⟨mark, offset⟩ :: (← scan next none rest)
      else if startsWord c then
        return Partial.close open? ++ (← scan next (some ⟨offset, [c]⟩) rest)
      else
        .error (.unexpectedChar c offset)

/-- The tokens of a text (`tokenize`). -/
def ofString (source : String) : Except ExprError (List PlacedToken) :=
  scan 0 none source.toList

end Token

end Supertypes
