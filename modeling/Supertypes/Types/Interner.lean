import Supertypes.Table.Lists
import Supertypes.Table.Sharded
import Supertypes.Types.Basic

/-!
# Interned types

Hash-consing: each structure is stored once and named by one handle, so that types are compared
by comparing handles.

- `Interner.lookup` reads a handle, `Interner.intern` finds or makes the handle of a structure.
- `Interner.inst`, `Interner.param`, `Interner.tuple` and `Interner.union` build types.
- Unions are kept in a normal form: nested unions are opened, members are distinct and ascend by
  handle, `Never` is dropped, and any `Any` takes the place of the whole union.

Everything that may add to the tables is an action of `Interning`. How the structures are spread
over the shards is a parameter, `Digest TypeData`, of all that follows.
-/

namespace Supertypes

/-- The tables of types, of lists of types and of lists of tuple elements (`TypeInterner`). -/
structure Interner where
  types : Table TypeData := {}
  typeLists : ListTable TypeId := {}
  elementLists : ListTable (Element TypeId) := {}
  deriving Repr

/-- An action that may intern types. -/
abbrev Interning := StateM Interner

namespace TypeId

/-- The largest slot whose addresses in low shards still fit above the intrinsic handles
(`MAX_SLOT`). -/
def maxSlot : Nat := (UInt32.size - 1 - firstUser.toNat) / shardCount

/-- The handle of the structure at an address (`make_id`). -/
def ofAddress (a : Address) : TypeId :=
  ⟨firstUser + a.pack⟩

/-- The address that a handle from a table stands for. -/
def address (id : TypeId) : Address :=
  Address.unpack (id.word - firstUser)

/-- What an intrinsic handle stands for. -/
def intrinsic? (id : TypeId) : Option TypeData :=
  if id = never then some .never else id.anyReason?.map .any

end TypeId

namespace Interner

/-! ## Reading -/

variable [Digest TypeData]

/-- What a handle stands for; nothing if it was never given out. -/
def lookup (types : Interner) (id : TypeId) : Option TypeData :=
  if id.isIntrinsic then id.intrinsic? else types.types.get? id.address

/-- The list of types behind a handle (`type_list`). -/
def typeList (types : Interner) (list : TypeListId) : List TypeId :=
  types.typeLists.get list.position

/-- The list of tuple elements behind a handle (`tuple_list`). -/
def elementList (types : Interner) (list : ElementListId) : List (Element TypeId) :=
  types.elementLists.get list.position

/-- The arguments of an instance (`instance_args`). -/
def args (types : Interner) (i : Instance) : List TypeId :=
  types.typeList i.args

/-- The instance that a handle stands for (`as_instance`). -/
def instance? (types : Interner) (id : TypeId) : Option Instance :=
  match types.lookup id with
  | some (.inst i) => some i
  | _ => none

/-- The reason of the `Any` that a handle stands for (`any_reason`). -/
def anyReason? (types : Interner) (id : TypeId) : Option AnyReason :=
  match types.lookup id with
  | some (.any reason) => some reason
  | _ => none

/-- Number of structures in the table. -/
def size (types : Interner) : Nat :=
  types.types.size

/-! ## Building -/

/-- The handle of a structure. When its shard is full a new structure becomes an error `Any`. -/
def intern (data : TypeData) : Interning TypeId := do
  match data with
  | .never => return .never
  | .any reason => return .any reason
  | _ =>
    let types ← get
    let (address, table) := types.types.intern TypeId.maxSlot data
    set { types with types := table }
    return (address.map TypeId.ofAddress).getD (.any .fromError)

/-- The handle of a list of types (`intern_type_list`). -/
def internTypes (list : List TypeId) : Interning TypeListId := do
  let types ← get
  let (position, table) := types.typeLists.intern list
  set { types with typeLists := table }
  return ⟨position⟩

/-- The handle of a list of tuple elements (`intern_tuple_list`). -/
def internElements (list : List (Element TypeId)) : Interning ElementListId := do
  let types ← get
  let (position, table) := types.elementLists.intern list
  set { types with elementLists := table }
  return ⟨position⟩

/-- A class applied to arguments (`instance`). The instance itself is no entry of the table. -/
def apply (head : ClassId) (args : List TypeId) : Interning Instance := do
  return ⟨head, ← internTypes args⟩

/-- The type of an instance (`instance_to_type`). -/
def inst (i : Instance) : Interning TypeId :=
  intern (.inst i)

/-- The type of a class applied to arguments (`instance_type`). -/
def instType (head : ClassId) (args : List TypeId) : Interning TypeId := do
  inst (← apply head args)

/-- The type that a type parameter stands for (`type_var`). -/
def param (p : Param) : Interning TypeId :=
  intern (.param p)

/-- The tuple of the given elements. -/
def tuple (elements : List (Element TypeId)) : Interning TypeId := do
  intern (.tuple (← internElements elements))

/-! ## Unions -/

/-- Put a handle into its place in a strictly ascending list; nothing changes if it is there. -/
def insertMember (id : TypeId) : List TypeId → List TypeId
  | [] => [id]
  | first :: rest =>
    if id.word < first.word then id :: first :: rest
    else if id = first then first :: rest
    else first :: insertMember id rest

/-- The members that a type contributes to a union: those of a union, else the type itself. -/
def membersOf (types : Interner) (id : TypeId) : List TypeId :=
  match types.lookup id with
  | some (.union members) => types.typeList members
  | _ => [id]

/-- The members of a list of types with unions opened, strictly ascending. -/
def flatten (types : Interner) (ids : List TypeId) : List TypeId :=
  (ids.flatMap types.membersOf).foldr insertMember []

/-- The union of types in normal form. Of several kinds of `Any` the one that ascends first wins:
explicit before unannotated before error. -/
def union (ids : List TypeId) : Interning TypeId := do
  let flat := flatten (← get) ids
  match flat.find? TypeId.isAny with
  | some any => return any
  | none =>
    match flat.filter (· ≠ .never) with
    | [] => return .never
    | [single] => return single
    | members => intern (.union (← internTypes members))

/-- The union of two types. -/
def union2 (a b : TypeId) : Interning TypeId :=
  union [a, b]

end Interner

end Supertypes
