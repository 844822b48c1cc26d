import Supertypes.Json.Reader

/-!
# Fixtures

A fixture declares the classes of a hierarchy and asks how instances look as their ancestors.

- `ClassDecl`, `Query` and `Fixture` hold the declarations as texts.
- `Fixture.ofJson?` reads them from JSON. Each record may be an object, with no fields but its
  own and none twice, or an array of its fields in order. Fields that have a default may be left
  out; in an array that goes for those at the end.
- `Fixture.parse?` reads them from a text.
-/

namespace Supertypes

/-- A class as it is declared. -/
structure ClassDecl where
  name : String
  /-- Names of the type parameters. -/
  params : List String := []
  /-- Base classes as type expressions. A generic base may be written without arguments. -/
  bases : List String := []
  /-- The tuple that the class is sugar over. -/
  tuple : Option String := none
  deriving DecidableEq, Repr

/-- A question (`QueryDecl`): how does an instance look as an instance of another class? -/
structure Query where
  /-- The instance as a type expression. -/
  subject : String
  /-- The name of the other class. -/
  target : String
  deriving DecidableEq, Repr

/-- Classes and questions. -/
structure Fixture where
  classes : List ClassDecl := []
  queries : List Query := []
  deriving DecidableEq, Repr

namespace Fixture

/-- The values of the named fields in order, each missing or given once. -/
def record (names : List String) : Json → Option (List (Option Json))
  | .array items =>
    if items.length ≤ names.length then
      some (items.map some ++ List.replicate (names.length - items.length) none)
    else none
  | .object fields =>
    if (fields.map Prod.fst).Nodup ∧ ∀ field ∈ fields, field.1 ∈ names then
      some (names.map fun name => (fields.find? (·.1 = name)).map Prod.snd)
    else none
  | _ => none

/-- A string. -/
def string? : Json → Option String
  | .string s => some s
  | _ => none

/-- A string or null, which is the same as leaving the field out. -/
def optionalString? : Option Json → Option (Option String)
  | none | some .null => some none
  | some json => (string? json).map some

/-- A list, empty if the field is left out. -/
def list? {α : Type} (item : Json → Option α) : Option Json → Option (List α)
  | none => some []
  | some (.array items) => items.mapM item
  | some _ => none

/-- A class declaration. -/
def classDecl? (json : Json) : Option ClassDecl := do
  match ← record ["name", "type_params", "bases", "tuple"] json with
  | [some name, params, bases, tuple] =>
    return { name := ← string? name
             params := ← list? string? params
             bases := ← list? string? bases
             tuple := ← optionalString? tuple }
  | _ => none

/-- A question. -/
def query? (json : Json) : Option Query := do
  match ← record ["instance", "target"] json with
  | [some subject, some target] => return ⟨← string? subject, ← string? target⟩
  | _ => none

/-- A fixture. -/
def ofJson? (json : Json) : Option Fixture := do
  match ← record ["classes", "queries"] json with
  | [classes, queries] => return ⟨← list? classDecl? classes, ← list? query? queries⟩
  | _ => none

/-- The fixture that a text spells (`parse_fixture`). -/
def parse? (source : String) : Option Fixture :=
  Json.parse? source >>= ofJson?

/-- What is said of a text that spells no fixture. -/
def malformed : String := "invalid fixture JSON"

end Fixture

end Supertypes
