import Supertypes.Json.Basic

/-!
# Reading JSON

A strict reader: no comments, no commas before a closing bracket, no raw control characters in
strings, no half of a surrogate pair, and nothing but blanks after the value.

- `Json.stringBody` reads a string behind its opening quote.
- `Json.value` reads one value from the front of a list of characters.
- `Json.parse?` reads a whole text.
-/

namespace Supertypes.Json

/-- The blanks between tokens. -/
def isBlank (c : Char) : Bool :=
  c = ' ' || c = '\t' || c = '\n' || c = '\r'

/-- Drop leading blanks. -/
def skip (cs : List Char) : List Char :=
  cs.dropWhile isBlank

/-! ## Strings -/

/-- The value of a hexadecimal digit. -/
def hexDigit? (c : Char) : Option Nat :=
  if '0' ≤ c ∧ c ≤ '9' then some (c.toNat - '0'.toNat)
  else if 'a' ≤ c ∧ c ≤ 'f' then some (c.toNat - 'a'.toNat + 10)
  else if 'A' ≤ c ∧ c ≤ 'F' then some (c.toNat - 'A'.toNat + 10)
  else none

/-- The number that four hexadecimal digits write. -/
def codeUnit? (a b c d : Char) : Option Nat := do
  return (((← hexDigit? a) * 16 + (← hexDigit? b)) * 16 + (← hexDigit? c)) * 16 + (← hexDigit? d)

/-- The first half of a surrogate pair. -/
def isHighSurrogate (u : Nat) : Bool :=
  0xD800 ≤ u && u < 0xDC00

/-- The second half of a surrogate pair. -/
def isLowSurrogate (u : Nat) : Bool :=
  0xDC00 ≤ u && u < 0xE000

/-- The character that a letter behind a backslash stands for. -/
def escape? : Char → Option Char
  | '"' => some '"'
  | '\\' => some '\\'
  | '/' => some '/'
  | 'b' => some '\x08'
  | 'f' => some '\x0c'
  | 'n' => some '\n'
  | 'r' => some '\r'
  | 't' => some '\t'
  | _ => none

/-- The characters up to the closing quote, and what follows it. -/
def stringBody : List Char → Option (List Char × List Char)
  | [] => none
  | '"' :: rest => some ([], rest)
  | '\\' :: 'u' :: a :: b :: c :: d :: rest => do
    let unit ← codeUnit? a b c d
    if isHighSurrogate unit then
      match rest with
      | '\\' :: 'u' :: a :: b :: c :: d :: rest =>
        let low ← codeUnit? a b c d
        if isLowSurrogate low then
          let char := Char.ofNat (0x10000 + (unit - 0xD800) * 0x400 + (low - 0xDC00))
          let (chars, rest) ← stringBody rest
          return (char :: chars, rest)
        else none
      | _ => none
    else if isLowSurrogate unit then none
    else
      let (chars, rest) ← stringBody rest
      return (Char.ofNat unit :: chars, rest)
  | '\\' :: letter :: rest => do
    let char ← escape? letter
    let (chars, rest) ← stringBody rest
    return (char :: chars, rest)
  | char :: rest =>
    if char.toNat < 0x20 then none
    else do
      let (chars, rest) ← stringBody rest
      return (char :: chars, rest)

/-! ## Numbers -/

/-- One digit or more. -/
def isDigits (cs : List Char) : Bool :=
  !cs.isEmpty && cs.all Char.isDigit

/-- Digits that do not start with a superfluous zero. -/
def isInteger (cs : List Char) : Bool :=
  isDigits cs && (cs.length = 1 || cs.head? != some '0')

/-- An exponent behind its letter, or nothing. -/
def isExponent : List Char → Bool
  | [] => true
  | '+' :: digits | '-' :: digits => isDigits digits
  | digits => isDigits digits

/-- A number without its sign. -/
def isUnsigned (cs : List Char) : Bool :=
  let isE (c : Char) : Bool := c = 'e' || c = 'E'
  let mantissa := cs.takeWhile fun c => !isE c
  let exponent := cs.dropWhile fun c => !isE c
  let whole := mantissa.takeWhile (· ≠ '.')
  let fraction := mantissa.dropWhile (· ≠ '.')
  isInteger whole && (fraction.isEmpty || isDigits fraction.tail) &&
    (exponent.isEmpty || (!exponent.tail.isEmpty && isExponent exponent.tail))

/-- A number literal. -/
def isNumber : List Char → Bool
  | '-' :: cs => isUnsigned cs
  | cs => isUnsigned cs

/-- The characters that number literals are made of. -/
def inNumber (c : Char) : Bool :=
  c.isDigit || c = '-' || c = '+' || c = '.' || c = 'e' || c = 'E'

/-! ## Values -/

mutual

/-- A value at the front of the characters, and what follows it. -/
def value : Nat → List Char → Option (Json × List Char)
  | 0, _ => none
  | fuel + 1, cs =>
    match skip cs with
    | '"' :: rest => do
      let (chars, rest) ← stringBody rest
      return (.string (String.ofList chars), rest)
    | '[' :: rest =>
      match skip rest with
      | ']' :: rest => some (.array [], rest)
      | rest => do
        let (items, rest) ← items fuel rest
        return (.array items, rest)
    | '\x7b' :: rest =>
      match skip rest with
      | '\x7d' :: rest => some (.object [], rest)
      | rest => do
        let (fields, rest) ← fields fuel rest
        return (.object fields, rest)
    | 'n' :: 'u' :: 'l' :: 'l' :: rest => some (.null, rest)
    | 't' :: 'r' :: 'u' :: 'e' :: rest => some (.bool true, rest)
    | 'f' :: 'a' :: 'l' :: 's' :: 'e' :: rest => some (.bool false, rest)
    | rest =>
      let literal := rest.takeWhile inNumber
      if isNumber literal then some (.number (String.ofList literal), rest.dropWhile inNumber)
      else none

/-- The items of an array up to its closing bracket, at least one. -/
def items : Nat → List Char → Option (List Json × List Char)
  | 0, _ => none
  | fuel + 1, cs => do
    let (first, rest) ← value fuel cs
    match skip rest with
    | ',' :: rest =>
      let (more, rest) ← items fuel rest
      return (first :: more, rest)
    | ']' :: rest => return ([first], rest)
    | _ => none

/-- The fields of an object up to its closing brace, at least one. -/
def fields : Nat → List Char → Option (List (String × Json) × List Char)
  | 0, _ => none
  | fuel + 1, cs =>
    match skip cs with
    | '"' :: rest => do
      let (key, rest) ← stringBody rest
      match skip rest with
      | ':' :: rest =>
        let (first, rest) ← value fuel rest
        let field := (String.ofList key, first)
        match skip rest with
        | ',' :: rest =>
          let (more, rest) ← fields fuel rest
          return (field :: more, rest)
        | '\x7d' :: rest => return ([field], rest)
        | _ => none
      | _ => none
    | _ => none

end

/-- The value that a text spells. Two calls at most are made for each character. -/
def parse? (source : String) : Option Json := do
  let cs := source.toList
  let (json, rest) ← value (2 * cs.length + 2) cs
  if (skip rest).isEmpty then return json else none

end Supertypes.Json
