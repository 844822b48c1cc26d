import Supertypes.Table.Sharded

/-!
# Symbols

Names as handles: a symbol stands for a string, and two symbols of one table are equal just when
their strings are.

- `SymbolTable.intern` answers the symbol of a string, `SymbolTable.internCommon` those of the
  names that nearly every hierarchy uses.
- `SymbolTable.get?` and `SymbolTable.text` read a symbol back. A symbol that the table never
  handed out reads as the empty string.

The empty string is always in the table: it comes first in shard 0, so its symbol is the word
zero. How the other names are spread over the shards is left open.
-/

namespace Supertypes

/-- An interned name (`Atom`). -/
structure Symbol where
  word : UInt32
  deriving DecidableEq, Repr

namespace Symbol

/-- The empty name. -/
def none : Symbol := ⟨0⟩

/-- The symbol is that of the empty name (`is_none`). -/
def isNone (s : Symbol) : Bool :=
  s = none

end Symbol

/-- The way names are spread over the shards. Any function will do. -/
class Spread where
  spread : String → Nat

/-- The spreading in use leaves shard 0 to the empty string. -/
instance : Spread where
  spread s := 1 + s.toList.foldl (fun h c => (31 * h + c.toNat) % 63) 0

/-- The empty string is in shard 0. -/
instance [Spread] : Digest String where
  digest s := if s = "" then 0 else Spread.spread s

/-- The names interned so far (`ShardedInterner`). -/
structure SymbolTable where
  names : Table String := { entries := [""] }
  deriving Repr

namespace SymbolTable

variable [Spread]

/-- Built-in classes, the usual element and container classes, and the names conventionally given
to type parameters (`COMMON_STRINGS`). -/
def common : List String :=
  ["object", "tuple", "int", "float", "str", "bytes", "bool", "list", "dict", "set", "frozenset",
    "Sequence", "Mapping", "Iterable", "Iterator", "Generic", "Any", "T", "T_co", "T_contra", "K",
    "V", "KT", "VT", "S", "U"]

/-- The symbol of `s`. When the shard of a new name is full the answer is the empty name. -/
def intern (s : String) : StateM SymbolTable Symbol := do
  if s = "" then
    return .none
  let (address, names) := (← get).names.intern Address.maxSlot s
  set { names : SymbolTable }
  return (address.map fun a => ⟨a.pack⟩).getD .none

/-- Intern the common names (`intern_common`). -/
def internCommon : StateM SymbolTable Unit :=
  common.forM fun s => discard (intern s)

/-- The name behind a symbol of this table (`try_resolve`). -/
def get? (t : SymbolTable) (s : Symbol) : Option String :=
  t.names.get? (Address.unpack s.word)

/-- The name behind a symbol; the empty name for a symbol that this table never handed out
(`resolve`). -/
def text (t : SymbolTable) (s : Symbol) : String :=
  (t.get? s).getD ""

/-- Number of names, the empty one included (`len`). -/
def size (t : SymbolTable) : Nat :=
  t.names.size

/-- Only the empty name has been interned (`is_empty`). -/
def isEmpty (t : SymbolTable) : Bool :=
  t.size ≤ 1

end SymbolTable

end Supertypes
