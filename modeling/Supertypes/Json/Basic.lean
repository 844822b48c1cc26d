/-!
# JSON values

The values of the data format that fixtures are written in and that results can be printed in.
Objects keep their fields in order and may hold a key twice; numbers are kept as they are
written.
-/

namespace Supertypes

/-- A JSON value. -/
inductive Json
  | null
  | bool (b : Bool)
  | number (literal : String)
  | string (s : String)
  | array (items : List Json)
  | object (fields : List (String × Json))

end Supertypes
