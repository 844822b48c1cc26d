import Supertypes.CommandLine.Run

/-!
# The program

Reads its arguments, runs them, and prints the output. Mistakes in the arguments end it with
status 2, a run without output with status 1.
-/

namespace Supertypes.Program

/-- How the program is used. -/
def usage : String :=
  "Map generic class instances to their supertypes\n\n" ++
  "Usage: supertypes [OPTIONS] <FIXTURE>\n\n" ++
  "Arguments:\n" ++
  "  <FIXTURE>  JSON fixture with classes and queries\n\n" ++
  "Options:\n" ++
  "      --all                           Print one result for each derivation path\n" ++
  "      --show-any-reason               Write every Any with its reason\n" ++
  "      --json                          Print results as JSON\n" ++
  "      --max-derivation-depth <DEPTH>  Follow paths of at most so many base edges\n" ++
  "                                      [default: 256]\n" ++
  "      --pretty <true|false>           Print text in colour or not\n" ++
  "  -h, --help                          Print help\n" ++
  "  -V, --version                       Print the version"

/-- The version. -/
def version : String := "supertypes 0.1.0"

/-- What is said of a mistake in the arguments. -/
def argumentText : ArgumentError → String
  | .missingPath => "a fixture is required"
  | .unknownArgument => "unexpected argument"
  | .repeatedOption => "an option cannot be used twice"
  | .invalidValue => "a value is missing or invalid"
  | .invalidNumber => "a number is invalid"
  | .surplusValue => "an option takes no value"
  | .helpRequested => usage
  | .versionRequested => version

/-- The number of a system error, given as it is or as the negative of it in a 32-bit word. -/
def errorNumber (code : UInt32) : Nat :=
  (if code < 0x80000000 then code else 0 - code).toNat

/-- Why a file cannot be read. -/
def fileError (e : IO.Error) : FileError :=
  let number := match e with
    | .noFileOrDirectory _ code _ | .permissionDenied _ code _ | .invalidArgument _ code _
    | .inappropriateType _ code _ => errorNumber code
    | _ => 0
  (FileError.ofNumber? number).getD (.other (toString e))

/-- The text of a file, or why there is none. -/
def readText (path : String) : IO (Except FileError String) := do
  if let some e := FileError.ofPath? path then
    return .error e
  try
    match String.fromUTF8? (← IO.FS.readBinFile path) with
    | some text => return .ok text
    | none => return .error .notText
  catch e =>
    return .error (fileError e)

/-- Run the program; the answer is its exit status. -/
def run (args : List String) : IO UInt32 := do
  match Arguments.parse args with
  | .error .helpRequested =>
    IO.println usage
    return 0
  | .error .versionRequested =>
    IO.println version
    return 0
  | .error e =>
    IO.eprintln s!"error: {argumentText e}"
    return 2
  | .ok a =>
    let source ← readText a.fixture
    let terminal ← (← IO.getStdout).isTty
    match a.run (fun _ => source) terminal with
    | .ok output =>
      unless output.isEmpty do
        IO.println output
      return 0
    | .error e =>
      IO.eprintln s!"Error: {e.message}"
      return 1

end Supertypes.Program

def main (args : List String) : IO UInt32 :=
  Supertypes.Program.run args
