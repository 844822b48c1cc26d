import Supertypes.Proofs.Tables
import Supertypes.Types.Traversal

/-!
# Handles stay good

- `Interner.Issued`: a handle of which it is settled what it stands for, because a table has
  given it out or because it is intrinsic. `Interner.IssuedList` and `Interner.IssuedElements`
  say the same of the handles of lists.
- `Interner.WellFormed`: the tables refer to issued handles only, and no shard has outgrown its
  slots.
- `Interner.lookup_of_le` and its companions: later tables read an issued handle as earlier ones
  do.
- `Interner.membersOf_eq_or`: a type contributes its members to a union, or it contributes
  itself.
- `TypeId.ofAddress_cases`: the handle of an address leads back to it, unless it runs over the
  end of the word into the intrinsic handles.
-/

namespace Supertypes

/-! ## Words -/

namespace TypeId

/-- The intrinsic handles are those below 16. -/
theorem isIntrinsic_iff {id : TypeId} : id.isIntrinsic = true ↔ id.word.toNat < 16 := by
  unfold isIntrinsic
  rw [decide_eq_true_iff, UInt32.lt_iff_toNat_lt]
  rfl

/-- The word of an address, as a number. -/
theorem toNat_ofAddress {a : Address} (h : a.slot ≤ maxSlot) :
    (ofAddress a).word.toNat = (16 + (a.slot * 64 + a.shard)) % 4294967296 := by
  have hslot : a.slot ≤ 67108863 := h
  have hshard : (a.shard : Nat) < 64 := a.shard.isLt
  have hpack : a.pack.toNat = a.slot * 64 + a.shard :=
    UInt32.toNat_ofNat_of_lt' (show a.slot * 64 + a.shard < 4294967296 by omega)
  unfold ofAddress
  rw [UInt32.toNat_add, hpack]
  rfl

/-- The handle of an address reads as that address, except that the last addresses of the high
shards run over the end of the word and come out intrinsic. -/
theorem ofAddress_cases {a : Address} (h : a.slot ≤ maxSlot) :
    (ofAddress a).isIntrinsic = true ∨
      (ofAddress a).isIntrinsic = false ∧ (ofAddress a).address = a := by
  have hslot : a.slot ≤ 67108863 := h
  have hshard : (a.shard : Nat) < 64 := a.shard.isLt
  have hword := toNat_ofAddress h
  by_cases hfit : 16 + (a.slot * 64 + a.shard) < 4294967296
  · right
    rw [Nat.mod_eq_of_lt hfit] at hword
    -- taking the offset away again gives the packed address
    have hfirst : firstUser ≤ (ofAddress a).word := by
      rw [UInt32.le_iff_toNat_le, hword]
      exact Nat.le_add_right 16 _
    have hsub : ((ofAddress a).word - firstUser).toNat = a.slot * 64 + a.shard := by
      rw [UInt32.toNat_sub_of_le _ _ hfirst, hword]
      exact Nat.add_sub_cancel_left 16 _
    constructor
    · rw [Bool.eq_false_iff, ne_eq, isIntrinsic_iff, hword]
      omega
    · have hmod : ((ofAddress a).word - firstUser).toNat % 64 = a.shard := by omega
      have hdiv : ((ofAddress a).word - firstUser).toNat / 64 = a.slot := by omega
      calc (ofAddress a).address
          = ⟨⟨((ofAddress a).word - firstUser).toNat % 64, Nat.mod_lt _ (by decide)⟩,
              ((ofAddress a).word - firstUser).toNat / 64⟩ := rfl
        _ = a := by simp only [hmod, hdiv]
  · left
    rw [isIntrinsic_iff, hword]
    omega

/-- Below the last slot no address runs over. -/
theorem isIntrinsic_ofAddress {a : Address} (h : a.slot < maxSlot) :
    (ofAddress a).isIntrinsic = false := by
  have hslot : a.slot < 67108863 := h
  have hshard : (a.shard : Nat) < 64 := a.shard.isLt
  rw [Bool.eq_false_iff, ne_eq, isIntrinsic_iff, toNat_ofAddress (Nat.le_of_lt h)]
  omega

@[simp] theorem isIntrinsic_any (reason : AnyReason) : (any reason).isIntrinsic = true := by
  cases reason <;> rfl

end TypeId

namespace Interner

/-! ## Growth -/

/-- `t'` goes on from `t`. -/
instance : LE Interner where
  le t t' := t.types ≤ t'.types ∧ t.typeLists ≤ t'.typeLists ∧ t.elementLists ≤ t'.elementLists

protected theorem le_refl (t : Interner) : t ≤ t :=
  ⟨t.types.le_refl, t.typeLists.le_refl, t.elementLists.le_refl⟩

protected theorem le_trans {a b c : Interner} (hab : a ≤ b) (hbc : b ≤ c) : a ≤ c :=
  ⟨Table.le_trans hab.1 hbc.1, ListTable.le_trans hab.2.1 hbc.2.1,
    ListTable.le_trans hab.2.2 hbc.2.2⟩

variable [Digest TypeData] {t t' : Interner}

/-- An intrinsic handle needs no table. -/
theorem lookup_of_intrinsic {id : TypeId} (h : id.isIntrinsic = true) :
    t.lookup id = id.intrinsic? := by
  simp only [lookup, h, if_true]

/-- Intrinsic handles stand for `Never` and the `Any`s only. -/
theorem data_of_intrinsic {id : TypeId} (h : id.isIntrinsic = true) {data : TypeData}
    (hdata : t.lookup id = some data) : data = .never ∨ ∃ reason, data = .any reason := by
  rw [lookup_of_intrinsic h] at hdata
  unfold TypeId.intrinsic? at hdata
  split at hdata
  · exact .inl (Option.some.inj hdata).symm
  · obtain ⟨reason, -, heq⟩ := Option.map_eq_some_iff.mp hdata
    exact .inr ⟨reason, heq.symm⟩

/-- Any other handle is read in the table of structures. -/
theorem lookup_of_user {id : TypeId} (h : id.isIntrinsic = false) :
    t.lookup id = t.types.get? id.address := by
  simp only [lookup, h, Bool.false_eq_true, if_false]

/-- What a handle stands for stays as it is when the tables grow. -/
theorem lookup_of_le (h : t ≤ t') {id : TypeId} {data : TypeData} (hid : t.lookup id = some data) :
    t'.lookup id = some data := by
  cases hintrinsic : id.isIntrinsic with
  | true =>
    -- intrinsic handles need no table
    rw [lookup_of_intrinsic hintrinsic] at hid ⊢
    exact hid
  | false =>
    rw [lookup_of_user hintrinsic] at hid ⊢
    exact Table.get?_of_le h.1 hid

theorem children_of_lookup {id : TypeId} {data : TypeData} (h : t.lookup id = some data) :
    t.children id = t.childrenOf data := by
  unfold children
  rw [h]
  rfl

/-- A type with a child stands for something. -/
theorem lookup_of_mem_children {id child : TypeId} (h : child ∈ t.children id) :
    ∃ data, t.lookup id = some data ∧ child ∈ t.childrenOf data := by
  unfold children at h
  cases hdata : t.lookup id with
  | none =>
    rw [hdata] at h
    exact absurd h List.not_mem_nil
  | some data =>
    rw [hdata] at h
    exact ⟨data, rfl, h⟩

/-! ## What a type contributes to a union -/

theorem membersOf_of_union {id : TypeId} {list : TypeListId}
    (h : t.lookup id = some (.union list)) : t.membersOf id = t.typeList list := by
  unfold membersOf
  rw [h]

theorem membersOf_of_not_union {id : TypeId} (h : ∀ list, t.lookup id ≠ some (.union list)) :
    t.membersOf id = [id] := by
  unfold membersOf
  split
  · rename_i list hdata
    exact absurd hdata (h list)
  · rfl

theorem not_union_of_intrinsic {id : TypeId} (h : id.isIntrinsic = true) (list : TypeListId) :
    t.lookup id ≠ some (.union list) := by
  intro hdata
  rcases data_of_intrinsic h hdata with heq | ⟨reason, heq⟩
  · cases heq
  · cases heq

theorem membersOf_of_intrinsic {id : TypeId} (h : id.isIntrinsic = true) :
    t.membersOf id = [id] :=
  membersOf_of_not_union (not_union_of_intrinsic h)

/-- A type contributes its members if it is a union, and itself otherwise. -/
theorem membersOf_eq_or (t : Interner) (id : TypeId) :
    (∃ list, t.lookup id = some (.union list) ∧ t.membersOf id = t.typeList list) ∨
      (∀ list, t.lookup id ≠ some (.union list)) ∧ t.membersOf id = [id] := by
  by_cases hunion : ∃ list, t.lookup id = some (.union list)
  · obtain ⟨list, hdata⟩ := hunion
    exact .inl ⟨list, hdata, membersOf_of_union hdata⟩
  · exact .inr ⟨not_exists.mp hunion, membersOf_of_not_union (not_exists.mp hunion)⟩

/-! ## Issued handles -/

/-- It is settled what the handle stands for. -/
def Issued (t : Interner) (id : TypeId) : Prop :=
  id.isIntrinsic = true ∨ (t.lookup id).isSome = true

instance decidableIssued (t : Interner) (id : TypeId) : Decidable (t.Issued id) :=
  inferInstanceAs (Decidable (id.isIntrinsic = true ∨ (t.lookup id).isSome = true))

/-- The handle of a list of types has been given out. -/
def IssuedList (t : Interner) (list : TypeListId) : Prop :=
  t.typeLists.Issued list.position

/-- The handle of a list of tuple elements has been given out. -/
def IssuedElements (t : Interner) (list : ElementListId) : Prop :=
  t.elementLists.Issued list.position

/-- The list that a structure refers to, if it does, has been given out. -/
def IssuedData (t : Interner) : TypeData → Prop
  | .inst i => t.IssuedList i.args
  | .tuple elements => t.IssuedElements elements
  | .union members => t.IssuedList members
  | .never | .any _ | .param _ => True

/-- A handle that can be read has been issued. -/
theorem issued_of_lookup {id : TypeId} {data : TypeData} (h : t.lookup id = some data) :
    t.Issued id :=
  .inr (by rw [h]; rfl)

@[simp] theorem issued_any (reason : AnyReason) : t.Issued (.any reason) :=
  .inl (TypeId.isIntrinsic_any reason)

@[simp] theorem issued_never : t.Issued .never :=
  .inl rfl

/-- Growing tables recall no handle. -/
theorem Issued.of_le {id : TypeId} (hid : t.Issued id) (h : t ≤ t') : t'.Issued id := by
  rcases hid with hid | hid
  · exact .inl hid
  · obtain ⟨data, hdata⟩ := Option.isSome_iff_exists.mp hid
    exact issued_of_lookup (lookup_of_le h hdata)

/-- They do not change what an issued handle stands for either. -/
theorem Issued.lookup_eq {id : TypeId} (hid : t.Issued id) (h : t ≤ t') :
    t'.lookup id = t.lookup id := by
  rcases hid with hid | hid
  · rw [lookup_of_intrinsic hid, lookup_of_intrinsic hid]
  · obtain ⟨data, hdata⟩ := Option.isSome_iff_exists.mp hid
    rw [hdata, lookup_of_le h hdata]

omit [Digest TypeData] in
theorem IssuedList.of_le {list : TypeListId} (hl : t.IssuedList list) (h : t ≤ t') :
    t'.IssuedList list :=
  ListTable.Issued.of_le hl h.2.1

omit [Digest TypeData] in
theorem IssuedElements.of_le {list : ElementListId} (hl : t.IssuedElements list) (h : t ≤ t') :
    t'.IssuedElements list :=
  ListTable.Issued.of_le hl h.2.2

omit [Digest TypeData] in
/-- The parts of a structure stay issued. -/
theorem IssuedData.of_le {data : TypeData} (hd : t.IssuedData data) (h : t ≤ t') :
    t'.IssuedData data := by
  cases data with
  | inst i => exact IssuedList.of_le hd h
  | tuple elements => exact IssuedElements.of_le hd h
  | union members => exact IssuedList.of_le hd h
  | never => trivial
  | any reason => trivial
  | param p => trivial

omit [Digest TypeData] in
theorem IssuedList.typeList_eq {list : TypeListId} (hl : t.IssuedList list) (h : t ≤ t') :
    t'.typeList list = t.typeList list :=
  ListTable.get_of_le h.2.1 hl

omit [Digest TypeData] in
theorem IssuedList.args_eq {i : Instance} (hi : t.IssuedList i.args) (h : t ≤ t') :
    t'.args i = t.args i :=
  hi.typeList_eq h

omit [Digest TypeData] in
theorem IssuedElements.elementList_eq {list : ElementListId} (hl : t.IssuedElements list)
    (h : t ≤ t') : t'.elementList list = t.elementList list :=
  ListTable.get_of_le h.2.2 hl

omit [Digest TypeData] in
/-- The children of an issued structure stay the same. -/
theorem IssuedData.childrenOf_eq {data : TypeData} (hd : t.IssuedData data) (h : t ≤ t') :
    t'.childrenOf data = t.childrenOf data := by
  cases data with
  | inst i => exact IssuedList.args_eq hd h
  | tuple elements => exact congrArg (List.map Element.item) (IssuedElements.elementList_eq hd h)
  | union members => exact IssuedList.typeList_eq hd h
  | never => rfl
  | any reason => rfl
  | param p => rfl

/-! ## Well-formed tables -/

/-- The tables hold together: structures refer to lists that have been given out, and lists to
types that have. -/
structure WellFormed (t : Interner) : Prop where
  /-- No shard has outgrown its slots. -/
  bounded : t.types.Bounded TypeId.maxSlot
  data_issued : ∀ data ∈ t.types.entries, t.IssuedData data
  types_issued : ∀ ids ∈ t.typeLists.stored, ∀ id ∈ ids, t.Issued id
  elements_issued : ∀ es ∈ t.elementLists.stored, ∀ e ∈ es, t.Issued e.item
  /-- Nothing is stored twice. -/
  types_nodup : t.types.entries.Nodup
  typeLists_distinct : t.typeLists.Distinct
  elementLists_distinct : t.elementLists.Distinct
  /-- Types are made of types of lower rank, and there are no more ranks than structures. -/
  ranked : ∃ rank : TypeId → Nat, ∀ id, rank id ≤ t.size ∧ ∀ c ∈ t.children id, rank c < rank id

namespace WellFormed

/-- Empty tables are well-formed. -/
theorem empty : WellFormed {} where
  bounded _ := Nat.zero_le _
  data_issued _ h := absurd h List.not_mem_nil
  types_issued _ h := absurd h List.not_mem_nil
  elements_issued _ h := absurd h List.not_mem_nil
  types_nodup := List.nodup_nil
  typeLists_distinct := ⟨List.nodup_nil, List.not_mem_nil⟩
  elementLists_distinct := ⟨List.nodup_nil, List.not_mem_nil⟩
  ranked := by
    refine ⟨fun _ => 0, fun id => ⟨Nat.le_refl 0, fun c hc => ?_⟩⟩
    obtain ⟨data, hdata, hchild⟩ := lookup_of_mem_children hc
    -- the lists of empty tables are empty
    have hnone : ∀ list : TypeListId, ({} : Interner).typeList list = [] := by
      rintro ⟨_ | n⟩ <;> rfl
    have hnone' : ∀ list : ElementListId, ({} : Interner).elementList list = [] := by
      rintro ⟨_ | n⟩ <;> rfl
    cases data <;> simp [childrenOf, args, hnone, hnone'] at hchild

variable (hwf : t.WellFormed)

include hwf

/-- The types of a stored list have been issued. -/
theorem issued_of_mem_typeList {list : TypeListId} {id : TypeId} (h : id ∈ t.typeList list) :
    t.Issued id := by
  unfold typeList at h
  rcases t.typeLists.get_eq_nil_or_mem list.position with hnil | hmem
  · rw [hnil] at h
    exact absurd h List.not_mem_nil
  · exact hwf.types_issued _ hmem id h

theorem issued_of_mem_elementList {list : ElementListId} {e : Element TypeId}
    (h : e ∈ t.elementList list) : t.Issued e.item := by
  unfold elementList at h
  rcases t.elementLists.get_eq_nil_or_mem list.position with hnil | hmem
  · rw [hnil] at h
    exact absurd h List.not_mem_nil
  · exact hwf.elements_issued _ hmem e h

/-- The parts of a stored structure have been issued. -/
theorem issuedData_of_lookup {id : TypeId} {data : TypeData} (h : t.lookup id = some data) :
    t.IssuedData data := by
  unfold lookup at h
  split at h
  · -- an intrinsic handle stands for `Never` or an `Any`, which refer to nothing
    unfold TypeId.intrinsic? at h
    split at h
    · obtain rfl := Option.some.inj h
      trivial
    · obtain ⟨reason, -, rfl⟩ := Option.map_eq_some_iff.mp h
      trivial
  · exact hwf.data_issued data (Table.mem_of_get? h)

/-- The children of any structure have been issued. -/
theorem issued_of_mem_childrenOf {data : TypeData} {id : TypeId} (h : id ∈ t.childrenOf data) :
    t.Issued id := by
  cases data with
  | inst i => exact hwf.issued_of_mem_typeList h
  | tuple elements =>
    obtain ⟨e, he, rfl⟩ := List.mem_map.mp h
    exact hwf.issued_of_mem_elementList he
  | union members => exact hwf.issued_of_mem_typeList h
  | never => exact absurd h List.not_mem_nil
  | any reason => exact absurd h List.not_mem_nil
  | param p => exact absurd h List.not_mem_nil

theorem issued_of_mem_children {id child : TypeId} (h : child ∈ t.children id) :
    t.Issued child := by
  obtain ⟨data, -, hchild⟩ := lookup_of_mem_children h
  exact hwf.issued_of_mem_childrenOf hchild

/-- Growing tables do not change the children of an issued type. -/
theorem children_eq {id : TypeId} (hid : t.Issued id) (h : t ≤ t') :
    t'.children id = t.children id := by
  unfold children
  rw [hid.lookup_eq h]
  cases hdata : t.lookup id with
  | none => rfl
  | some data => exact (hwf.issuedData_of_lookup hdata).childrenOf_eq h

/-- They do not change what it contributes to a union. -/
theorem membersOf_eq {id : TypeId} (hid : t.Issued id) (h : t ≤ t') :
    t'.membersOf id = t.membersOf id := by
  unfold membersOf
  rw [hid.lookup_eq h]
  split
  · rename_i members hdata
    have hissued : t.IssuedData (.union members) := hwf.issuedData_of_lookup hdata
    exact IssuedList.typeList_eq hissued h
  · rfl

/-- So a union that is built again has the same members. -/
theorem flatten_eq {ids : List TypeId} (hids : ∀ id ∈ ids, t.Issued id) (h : t ≤ t') :
    t'.flatten ids = t.flatten ids := by
  unfold flatten
  have hmembers : ids.flatMap t'.membersOf = ids.flatMap t.membersOf :=
    List.flatMap_congr fun id hid => hwf.membersOf_eq (hids id hid) h
  rw [hmembers]

end WellFormed

end Interner

end Supertypes
