import Supertypes.Json.Basic

/-!
# Printing JSON

The layout with one item on each line, indented by two blanks for each level. Empty arrays and
objects stay on one line. In strings, quotes, backslashes and control characters below the blank
are escaped and all other characters stand for themselves.
-/

namespace Supertypes.Json

/-- The digit of a value below 16. -/
def hexDigit (n : Nat) : Char :=
  Nat.digitChar n

/-- A character as it is written inside a string. -/
def escapeChar (c : Char) : List Char :=
  match c with
  | '"' => ['\\', '"']
  | '\\' => ['\\', '\\']
  | '\x08' => ['\\', 'b']
  | '\t' => ['\\', 't']
  | '\n' => ['\\', 'n']
  | '\x0c' => ['\\', 'f']
  | '\r' => ['\\', 'r']
  | c =>
    if c.toNat < 0x20 then
      ['\\', 'u', '0', '0', hexDigit (c.toNat / 16), hexDigit (c.toNat % 16)]
    else [c]

/-- A string in quotes. -/
def quoted (s : String) : String :=
  String.ofList ('"' :: s.toList.flatMap escapeChar ++ ['"'])

/-- A line break and the indentation of a level. -/
def newline (level : Nat) : String :=
  "\n" ++ String.ofList (List.replicate (2 * level) ' ')

/-- Texts between brackets, one on each line. -/
def block (level : Nat) (opening closing : String) (lines : List String) : String :=
  if lines.isEmpty then opening ++ closing
  else opening ++ newline (level + 1) ++ ("," ++ newline (level + 1)).intercalate lines ++
    newline level ++ closing

mutual

/-- The text of a value whose first line is at the given level. -/
def textAt (level : Nat) : Json → String
  | null => "null"
  | bool b => if b then "true" else "false"
  | number literal => literal
  | string s => quoted s
  | array items => block level "[" "]" (itemTexts (level + 1) items)
  | object fields => block level "\x7b" "\x7d" (fieldTexts (level + 1) fields)

/-- The texts of array items. -/
def itemTexts (level : Nat) : List Json → List String
  | [] => []
  | item :: rest => textAt level item :: itemTexts level rest

/-- The texts of object fields. -/
def fieldTexts (level : Nat) : List (String × Json) → List String
  | [] => []
  | (key, value) :: rest => (quoted key ++ ": " ++ textAt level value) :: fieldTexts level rest

end

/-- The text of a value. -/
def text (json : Json) : String :=
  textAt 0 json

end Supertypes.Json
