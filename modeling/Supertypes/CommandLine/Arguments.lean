import Supertypes.Fixture.Answer
import Supertypes.Limits

/-!
# Arguments of the command line

One positional argument, the path of a fixture, and options that start with two dashes.

- `Arguments.parse` reads the arguments behind the name of the program.
- `ArgumentError` says what kind of mistake was made, or that help or the version was asked for.

An option that takes a value has it behind an equals sign or in the next argument. A value is
looked at only when the argument after it is a known option or a path, or at the end; an unknown
option is therefore reported before an earlier bad value, unless that was written with an equals
sign.
-/

namespace Supertypes

/-- What the command line asks for (`CliArgs`). -/
structure Arguments where
  fixture : String
  all : Bool := false
  reasons : Bool := false
  json : Bool := false
  limit : Option Nat := none
  /-- Colour, if it is not to depend on the terminal. -/
  pretty : Option Bool := none
  deriving DecidableEq, Repr

/-- Why arguments are not taken. -/
inductive ArgumentError
  /-- No path was given. -/
  | missingPath
  /-- An unknown option or a second path. -/
  | unknownArgument
  /-- An option was given twice. -/
  | repeatedOption
  /-- A value is missing, or is not one of the values possible. -/
  | invalidValue
  /-- A number is malformed or out of range. -/
  | invalidNumber
  /-- An option without a value was given one. -/
  | surplusValue
  | helpRequested
  | versionRequested
  deriving DecidableEq, Repr

/-- The options that are on or off. -/
inductive Switch
  | all
  | reasons
  | json
  deriving DecidableEq, Repr

/-- The options that have a value. -/
inductive Setting
  | limit
  | pretty
  deriving DecidableEq, Repr

/-- What an option's name stands for. -/
inductive OptionName
  | switch (s : Switch)
  | setting (s : Setting)
  | help
  | version
  deriving DecidableEq, Repr

namespace OptionName

/-- The option of a long name. -/
def ofLong? : String → Option OptionName
  | "all" => some (.switch .all)
  | "show-any-reason" => some (.switch .reasons)
  | "json" => some (.switch .json)
  | "max-derivation-depth" => some (.setting .limit)
  | "pretty" => some (.setting .pretty)
  | "help" => some .help
  | "version" => some .version
  | _ => none

/-- The option of a one-letter name. -/
def ofShort? : Char → Option OptionName
  | 'h' => some .help
  | 'V' => some .version
  | _ => none

end OptionName

namespace Arguments

/-! ## Values -/

/-- The value of a digit. -/
def digit? (c : Char) : Option Nat :=
  if c.isDigit then some (c.toNat - '0'.toNat) else none

/-- A number in decimal digits, at least one. -/
def natural? : List Char → Option Nat
  | [] => none
  | cs => cs.foldlM (fun n c => return 10 * n + (← digit? c)) 0

/-- A number of 32 bits, with or without a sign; the negative ones but zero are out of range. -/
def number? (s : String) : Option Nat := do
  let n ← match s.toList with
    | '+' :: digits => natural? digits
    | '-' :: digits => (natural? digits).filter (· = 0)
    | digits => natural? digits
  if n < UInt32.size then return n else none

/-- A truth value. -/
def truth? : String → Option Bool
  | "true" => some true
  | "false" => some false
  | _ => none

/-! ## Reading -/

/-- A path or an option whose value has not been looked at yet. -/
inductive Pending
  | path (value : String)
  | setting (s : Setting) (value : Option String)
  deriving DecidableEq, Repr

/-- What has been read so far. -/
structure Progress where
  path : Option String := none
  all : Bool := false
  reasons : Bool := false
  json : Bool := false
  limit : Option Nat := none
  pretty : Option Bool := none
  pending : Option Pending := none
  /-- A path has been given, looked at or not. -/
  hasPath : Bool := false
  /-- A bare double dash has been read: all further arguments are paths. -/
  pathsOnly : Bool := false
  deriving DecidableEq, Repr

namespace Progress

/-- Turn a switch on, once. -/
def turnOn (p : Progress) : Switch → Except ArgumentError Progress
  | .all => if p.all then .error .repeatedOption else .ok { p with all := true }
  | .reasons => if p.reasons then .error .repeatedOption else .ok { p with reasons := true }
  | .json => if p.json then .error .repeatedOption else .ok { p with json := true }

/-- Give a setting its value, once. -/
def assign (p : Progress) (s : Setting) (value : String) : Except ArgumentError Progress :=
  match s with
  | .limit =>
    if p.limit.isSome then .error .repeatedOption
    else match number? value with
      | some n => .ok { p with limit := some n }
      | none => .error .invalidNumber
  | .pretty =>
    if p.pretty.isSome then .error .repeatedOption
    else match truth? value with
      | some b => .ok { p with pretty := some b }
      | none => .error .invalidValue

/-- Look at what is pending. -/
def settle (p : Progress) : Except ArgumentError Progress :=
  let settled := { p with pending := none }
  match p.pending with
  | none => .ok settled
  | some (.path value) =>
    if value.isEmpty then .error .invalidValue else .ok { settled with path := some value }
  | some (.setting _ none) => .error .invalidValue
  | some (.setting s (some value)) => settled.assign s value

/-- Take an option, with the value behind its equals sign if it has one. -/
def takeOption (p : Progress) (name : Option OptionName) (value : Option String) :
    Except ArgumentError Progress := do
  match name, value with
  | none, _ => throw .unknownArgument
  | some (.setting s), none => return { ← p.settle with pending := some (.setting s none) }
  | some (.setting s), some value => (← p.settle).assign s value
  | some _, some _ => throw .surplusValue
  | some (.switch s), none => (← p.settle).turnOn s
  | some .help, none => discard p.settle; throw .helpRequested
  | some .version, none => discard p.settle; throw .versionRequested

/-- Take a path. -/
def takePath (p : Progress) (value : String) : Except ArgumentError Progress := do
  if p.hasPath then
    throw .unknownArgument
  return { ← p.settle with pending := some (.path value), hasPath := true }

/-- Take one argument. -/
def take (p : Progress) (arg : String) : Except ArgumentError Progress :=
  if p.pathsOnly then p.takePath arg
  else match arg.toList with
    | ['-', '-'] => .ok { p with pathsOnly := true }
    | '-' :: '-' :: long =>
      let name := String.ofList (long.takeWhile (· ≠ '='))
      let value := match long.dropWhile (· ≠ '=') with
        | [] => none
        | _ :: value => some (String.ofList value)
      p.takeOption (OptionName.ofLong? name) value
    | '-' :: short :: _ => p.takeOption (OptionName.ofShort? short) none
    | _ =>
      match p.pending with
      | some (.setting s none) => .ok { p with pending := some (.setting s (some arg)) }
      | _ => p.takePath arg

/-- End the arguments. -/
def finish (p : Progress) : Except ArgumentError Arguments := do
  let p ← p.settle
  match p.path with
  | none => throw .missingPath
  | some fixture => return { p with fixture }

end Progress

/-- Read the arguments behind the name of the program. -/
def parse (args : List String) : Except ArgumentError Arguments := do
  (← args.foldlM Progress.take {}).finish

/-- Fixtures may come from anywhere, so the command line always limits derivation paths. -/
def options (a : Arguments) : AnswerOptions where
  all := a.all
  reasons := a.reasons
  limit := some (a.limit.getD Limits.derivation)

end Arguments

end Supertypes
