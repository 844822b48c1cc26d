import Supertypes.Table.Sharded
import Supertypes.Types.Basic

/-!
# The digest in use

How structures are spread over the shards of the type tables is left open: every definition and
every result about the tables takes it as a parameter. This is the digest that the program runs
with. It reads all that a structure holds, so structures that differ may still share a shard, but
none are told apart by the tables for it.
-/

namespace Supertypes

/-- A number that depends on every character of a name. -/
def nameDigest (name : String) : Nat :=
  name.toList.foldl (fun h c => 31 * h + c.toNat) 0

/-- Spreads the structures by the indices and the names in them. -/
instance : Digest TypeData where
  digest
    | .never => 0
    | .any _ => 1
    | .inst i => 5 * i.head.number + 7 * i.args.position
    | .param p => 3 * p.id.number + nameDigest p.name
    | .tuple elements => 11 * elements.position + 2
    | .union members => 13 * members.position + 3

end Supertypes
