/-!
# Sharded tables

An insertion-ordered set of values, numbered shard by shard. A value's digest picks its shard,
and its place among the values of that shard is its slot; the two together make its address,
which packs into one 32-bit word.

- `Address.pack` and `Address.unpack` are inverse to each other as long as the slot is at most
  `Address.maxSlot`.
- `Table.find?` and `Table.get?` take a value to its address and back.
- `Table.intern` answers the address of a value, adding the value when it is new and its shard
  still has a slot below a given limit.

Nothing is ever removed or moved, so an address stays good.
-/

namespace Supertypes

/-- Number of shards of every table. -/
def shardCount : Nat := 64

/-- The way the values of a type are spread over the shards. Any function will do. -/
class Digest (α : Type) where
  digest : α → Nat

/-- The shard that a value belongs to (`shard_for`). -/
def shardOf {α : Type} [Digest α] (a : α) : Fin shardCount :=
  ⟨Digest.digest a % shardCount, Nat.mod_lt _ (by decide)⟩

/-- Where a value stands: its shard, and its place within the shard. -/
structure Address where
  shard : Fin shardCount
  slot : Nat
  deriving DecidableEq, Repr

namespace Address

/-- The largest slot that fits into a word beside the shard. -/
def maxSlot : Nat := (UInt32.size - 1) / shardCount

/-- The slot in the high bits, the shard in the low six. -/
def pack (a : Address) : UInt32 :=
  UInt32.ofNat (a.slot * shardCount + a.shard)

/-- The address that a word holds. -/
def unpack (w : UInt32) : Address where
  shard := ⟨w.toNat % shardCount, Nat.mod_lt _ (by decide)⟩
  slot := w.toNat / shardCount

end Address

/-- A set of values in the order in which they were added. -/
structure Table (α : Type) where
  entries : List α := []
  deriving Repr

namespace Table

variable {α : Type} [DecidableEq α] [Digest α]

/-- The values of one shard, by slot. -/
def shard (t : Table α) (s : Fin shardCount) : List α :=
  t.entries.filter (shardOf · = s)

/-- The address of a value that is in the table. -/
def find? (t : Table α) (a : α) : Option Address :=
  ((t.shard (shardOf a)).findIdx? (· = a)).map (Address.mk (shardOf a))

/-- The value at an address. -/
def get? (t : Table α) (a : Address) : Option α :=
  (t.shard a.shard)[a.slot]?

/-- Number of values. -/
def size (t : Table α) : Nat :=
  t.entries.length

/-- The shard of `a` has used all its slots up to `maxSlot`. -/
def Full (t : Table α) (maxSlot : Nat) (a : α) : Prop :=
  maxSlot < (t.shard (shardOf a)).length

instance (t : Table α) (maxSlot : Nat) (a : α) : Decidable (t.Full maxSlot a) :=
  inferInstanceAs (Decidable (_ < _))

/-- The address of `a`, which is added if it is new; none if it is new and its shard is full. -/
def intern (t : Table α) (maxSlot : Nat) (a : α) : Option Address × Table α :=
  match t.find? a with
  | some address => (some address, t)
  | none =>
    if t.Full maxSlot a then (none, t)
    else (some ⟨shardOf a, (t.shard (shardOf a)).length⟩, { t with entries := t.entries ++ [a] })

end Table

end Supertypes
