import Supertypes.Proofs.Building
import Supertypes.Proofs.Search

/-!
# What occurs in a type

- `Interner.Occurs`: one type occurs in another, at any depth. `Interner.Mentions`: a type
  parameter does.
- `Interner.mem_walk_iff` and `Interner.mem_params_iff`: the walk over a type meets the known
  types that occur in it, and finds the parameters that it mentions.
- `Interner.WellFormed.mentions_iff_of_le`: later tables do not change what an issued type
  mentions.
- `Interner.Joins.mentions_iff`: a union mentions what its types mention, unless it is intrinsic.
-/

namespace Supertypes.Interner

open Relation

variable [Digest TypeData] {t t' : Interner}

/-- `x` occurs in the type `root`, at any depth. -/
def Occurs (t : Interner) (root x : TypeId) : Prop :=
  ReflTransGen (Search.Step t.children) root x

/-- The type parameter `p` occurs in the type `root`. -/
def Mentions (t : Interner) (root : TypeId) (p : Param) : Prop :=
  ∃ x, t.Occurs root x ∧ t.lookup x = some (.param p)

/-! ## The known handles -/

theorem isKnown_of_lookup {id : TypeId} {data : TypeData} (h : t.lookup id = some data) :
    t.isKnown id = true := by
  unfold isKnown
  rw [h]
  rfl

theorem isKnown_of_mem_children {id child : TypeId} (h : child ∈ t.children id) :
    t.isKnown id = true := by
  obtain ⟨data, hdata, -⟩ := lookup_of_mem_children h
  exact isKnown_of_lookup hdata

theorem param?_eq_some_iff {id : TypeId} {p : Param} :
    t.param? id = some p ↔ t.lookup id = some (.param p) := by
  unfold param?
  split
  · rename_i hdata
    simp [hdata]
  · rename_i hnot
    simpa using hnot p

theorem instance?_eq_some_iff {id : TypeId} {i : Instance} :
    t.instance? id = some i ↔ t.lookup id = some (.inst i) := by
  unfold instance?
  split
  · rename_i hdata
    simp [hdata]
  · rename_i hnot
    simpa using hnot i

omit [Digest TypeData] in
/-- Where the entries that a filter keeps stood before. -/
theorem getElem?_of_getElem?_filter {α : Type} {keep : α → Bool} {xs : List α} {n : Nat} {x : α}
    (h : (xs.filter keep)[n]? = some x) :
    ∃ i, xs[i]? = some x ∧ keep x = true ∧ ((xs.take i).filter keep).length = n := by
  induction xs generalizing n with
  | nil => cases h
  | cons first rest ih =>
    by_cases hkeep : keep first = true
    · rw [List.filter_cons_of_pos hkeep] at h
      cases n with
      | zero => exact ⟨0, h, Option.some.inj h ▸ hkeep, rfl⟩
      | succ n =>
        obtain ⟨i, hi, hx, hlen⟩ := ih h
        refine ⟨i + 1, hi, hx, ?_⟩
        rw [List.take_succ_cons, List.filter_cons_of_pos hkeep, List.length_cons, hlen]
    · rw [List.filter_cons_of_neg hkeep] at h
      obtain ⟨i, hi, hx, hlen⟩ := ih h
      refine ⟨i + 1, hi, hx, ?_⟩
      rw [List.take_succ_cons, List.filter_cons_of_neg hkeep, hlen]

/-- The handle of the entry at place `i` of the table. -/
def handleAt (t : Interner) (i : Nat) (data : TypeData) : TypeId :=
  .ofAddress ⟨shardOf data, ((t.types.entries.take i).filter (shardOf · = shardOf data)).length⟩

/-- The handles that may stand for something, no more than `knownBound`. -/
def knownHandles (t : Interner) : List TypeId :=
  [.never, .any .explicit, .any .unannotated, .any .fromError] ++
    t.types.entries.zipIdx.map fun (data, i) => t.handleAt i data

theorem length_knownHandles (t : Interner) : t.knownHandles.length = t.knownBound := by
  simp only [knownHandles, knownBound, size, Table.size, List.length_append, List.length_cons,
    List.length_nil, List.length_map, List.length_zipIdx]
  omega

omit [Digest TypeData] in
/-- A handle from a table is that of its address. -/
theorem ofAddress_address {id : TypeId} (h : id.isIntrinsic = false) :
    TypeId.ofAddress id.address = id := by
  obtain ⟨word⟩ := id
  have hle : TypeId.firstUser ≤ word := by
    rw [UInt32.le_iff_toNat_le]
    simpa [TypeId.isIntrinsic, UInt32.lt_iff_toNat_lt] using h
  have hsub : (word - TypeId.firstUser).toNat < 4294967296 := UInt32.toNat_lt _
  have hpack : Address.pack (TypeId.address ⟨word⟩) = word - TypeId.firstUser := by
    apply UInt32.toNat_inj.mp
    unfold Address.pack TypeId.address Address.unpack
    rw [UInt32.toNat_ofNat_of_lt']
    · exact Nat.div_add_mod' _ _
    · rw [Nat.div_add_mod']
      exact hsub
  unfold TypeId.ofAddress
  rw [hpack]
  exact congrArg TypeId.mk ((UInt32.add_comm _ _).trans (UInt32.sub_add_cancel word _))

theorem mem_knownHandles {id : TypeId} (h : t.isKnown id = true) : id ∈ t.knownHandles := by
  obtain ⟨data, hdata⟩ := Option.isSome_iff_exists.mp h
  unfold knownHandles
  rw [List.mem_append]
  cases hintrinsic : id.isIntrinsic with
  | true =>
    left
    rw [lookup_of_intrinsic hintrinsic] at hdata
    unfold TypeId.intrinsic? TypeId.anyReason? at hdata
    split at hdata
    · simp_all
    · split at hdata
      · simp_all
      · split at hdata
        · simp_all
        · split at hdata
          · simp_all
          · cases hdata
  | false =>
    right
    rw [lookup_of_user hintrinsic] at hdata
    -- the slot counts the entries of the shard that come before
    obtain ⟨i, hi, hshard, hslot⟩ := getElem?_of_getElem?_filter hdata
    rw [decide_eq_true_iff] at hshard
    refine List.mem_map.mpr ⟨(data, i), List.mem_zipIdx_iff_getElem?.mpr hi, ?_⟩
    have haddress : id.address =
        ⟨shardOf data, ((t.types.entries.take i).filter (shardOf · = shardOf data)).length⟩ := by
      rw [hshard]
      exact congrArg (Address.mk id.address.shard) hslot.symm
    show TypeId.ofAddress _ = id
    rw [← haddress, ofAddress_address hintrinsic]

/-! ## The walk -/

/-- The known types that the walk from `root` can come to are those that occur in it. -/
theorem reached_iff {root x : TypeId} :
    Search.Reached (fun id => (t.children id).filter t.isKnown) ([root].filter t.isKnown) x ↔
      t.Occurs root x ∧ t.isKnown x = true := by
  constructor
  · rintro ⟨r, hr, path⟩
    obtain ⟨hroot, hknown⟩ := List.mem_filter.mp hr
    obtain rfl := List.mem_singleton.mp hroot
    induction path with
    | refl => exact ⟨.refl, hknown⟩
    | tail _ hstep ih =>
      obtain ⟨hchild, hknown'⟩ := List.mem_filter.mp hstep
      exact ⟨ih.1.tail hchild, hknown'⟩
  · rintro ⟨path, hknown⟩
    induction path with
    | refl => exact .root (List.mem_filter.mpr ⟨List.mem_singleton_self root, hknown⟩)
    | tail _ hstep ih =>
      -- what has a child is known, so the walk has come so far
      have hbefore := ih (isKnown_of_mem_children hstep)
      exact hbefore.step (List.mem_filter.mpr ⟨hstep, hknown⟩)

/-- The walk over a type meets exactly the known types that occur in it. -/
theorem mem_walk_iff {root x : TypeId} :
    x ∈ t.walk root ↔ t.Occurs root x ∧ t.isKnown x = true := by
  have hnodes : ∀ y, Search.Reached (fun id => (t.children id).filter t.isKnown)
      ([root].filter t.isKnown) y → y ∈ t.knownHandles :=
    fun y hy => mem_knownHandles (reached_iff.mp hy).2
  unfold walk
  rw [Search.mem_reachable_iff hnodes (Nat.le_of_eq t.length_knownHandles), reached_iff]

/-- The walk finds the parameters that a type mentions. -/
theorem mem_params_iff {root : TypeId} {p : ParamId} :
    p ∈ t.params root ↔ ∃ q, t.Mentions root q ∧ q.id = p := by
  unfold params
  rw [Search.mem_firstSeen, List.mem_filterMap]
  constructor
  · rintro ⟨x, hx, hp⟩
    obtain ⟨q, hq, rfl⟩ := Option.map_eq_some_iff.mp hp
    exact ⟨q, ⟨x, (mem_walk_iff.mp hx).1, param?_eq_some_iff.mp hq⟩, rfl⟩
  · rintro ⟨q, ⟨x, hx, hdata⟩, rfl⟩
    refine ⟨x, mem_walk_iff.mpr ⟨hx, isKnown_of_lookup hdata⟩, ?_⟩
    rw [param?_eq_some_iff.mpr hdata]
    rfl

/-- The walk finds the classes of the instances that occur in a type. -/
theorem mem_classes_iff {root : TypeId} {c : ClassId} :
    c ∈ t.classes root ↔ ∃ x i, t.Occurs root x ∧ t.lookup x = some (.inst i) ∧ i.head = c := by
  unfold classes
  rw [Search.mem_firstSeen, List.mem_filterMap]
  constructor
  · rintro ⟨x, hx, hc⟩
    obtain ⟨i, hi, rfl⟩ := Option.map_eq_some_iff.mp hc
    exact ⟨x, i, (mem_walk_iff.mp hx).1, instance?_eq_some_iff.mp hi, rfl⟩
  · rintro ⟨x, i, hx, hdata, rfl⟩
    refine ⟨x, mem_walk_iff.mpr ⟨hx, isKnown_of_lookup hdata⟩, ?_⟩
    rw [instance?_eq_some_iff.mpr hdata]
    rfl

/-! ## Mentioned parameters -/

/-- A type mentions a parameter by being it or through a child. -/
theorem mentions_iff {id : TypeId} {p : Param} :
    t.Mentions id p ↔ t.lookup id = some (.param p) ∨ ∃ c ∈ t.children id, t.Mentions c p := by
  constructor
  · rintro ⟨x, hx, hp⟩
    cases hx using ReflTransGen.head_induction_on with
    | refl => exact .inl hp
    | head hstep hrest => exact .inr ⟨_, hstep, x, hrest, hp⟩
  · rintro (hp | ⟨c, hc, x, hx, hp⟩)
    · exact ⟨id, .refl, hp⟩
    · exact ⟨x, hx.head hc, hp⟩

/-- A type without children that is no parameter mentions none. -/
theorem not_mentions_of_leaf {id : TypeId} {p : Param}
    (h : ∀ data, t.lookup id = some data → t.childrenOf data = [] ∧ data ≠ .param p) :
    ¬ t.Mentions id p := by
  rw [mentions_iff]
  rintro (hp | ⟨c, hc, -⟩)
  · exact (h _ hp).2 rfl
  · obtain ⟨data, hlookup, hchild⟩ := lookup_of_mem_children hc
    rw [(h data hlookup).1] at hchild
    exact absurd hchild List.not_mem_nil

theorem not_mentions_of_intrinsic {id : TypeId} (h : id.isIntrinsic = true) {p : Param} :
    ¬ t.Mentions id p := by
  -- an intrinsic handle stands for nothing, for `Never` or for an `Any`
  refine not_mentions_of_leaf fun data hdata => ?_
  rw [lookup_of_intrinsic h] at hdata
  unfold TypeId.intrinsic? at hdata
  split at hdata
  · obtain rfl := Option.some.inj hdata
    exact ⟨rfl, by simp⟩
  · obtain ⟨reason, -, rfl⟩ := Option.map_eq_some_iff.mp hdata
    exact ⟨rfl, by simp⟩

theorem mentions_param_iff {id : TypeId} {p q : Param} (hdata : t.lookup id = some (.param q)) :
    t.Mentions id p ↔ p = q := by
  rw [mentions_iff, hdata, children_of_lookup hdata]
  simp [childrenOf, eq_comm]

/-- What stands for a structure other than a parameter mentions what the parts of it mention. -/
theorem mentions_childrenOf {id : TypeId} {data : TypeData}
    (hdata : id.isIntrinsic = true ∨ t.lookup id = some data) (hparam : ∀ q, data ≠ .param q)
    {p : Param} (h : t.Mentions id p) : ∃ c ∈ t.childrenOf data, t.Mentions c p := by
  rcases hdata with hintrinsic | hdata
  · exact absurd h (not_mentions_of_intrinsic hintrinsic)
  · rw [mentions_iff, hdata] at h
    rcases h with hp | ⟨c, hc, hp⟩
    · exact absurd (Option.some.inj hp) (hparam p)
    · rw [children_of_lookup hdata] at hc
      exact ⟨c, hc, hp⟩

theorem WellFormed.issued_of_occurs (hwf : t.WellFormed) {id x : TypeId} (hid : t.Issued id)
    (h : t.Occurs id x) : t.Issued x := by
  cases h with
  | refl => exact hid
  | tail _ hstep => exact hwf.issued_of_mem_children hstep

/-- Later tables do not change what occurs in an issued type: all on the way is issued, and
issued types keep their children. -/
theorem WellFormed.occurs_iff_of_le (hwf : t.WellFormed) (h : t ≤ t') {id x : TypeId}
    (hid : t.Issued id) : t'.Occurs id x ↔ t.Occurs id x := by
  constructor
  · intro path
    induction path with
    | refl => exact .refl
    | tail _ hstep ih =>
      refine ih.tail ?_
      unfold Search.Step at hstep ⊢
      rwa [hwf.children_eq (hwf.issued_of_occurs hid ih) h] at hstep
  · intro path
    induction path with
    | refl => exact .refl
    | tail hpath hstep ih =>
      refine ih.tail ?_
      unfold Search.Step at hstep ⊢
      rwa [hwf.children_eq (hwf.issued_of_occurs hid hpath) h]

/-- Later tables do not change what an issued type mentions. -/
theorem WellFormed.mentions_iff_of_le (hwf : t.WellFormed) (h : t ≤ t') {id : TypeId}
    (hid : t.Issued id) {p : Param} : t'.Mentions id p ↔ t.Mentions id p := by
  constructor
  · rintro ⟨x, hx, hp⟩
    have hx' := (hwf.occurs_iff_of_le h hid).mp hx
    exact ⟨x, hx', by rwa [(hwf.issued_of_occurs hid hx').lookup_eq h] at hp⟩
  · rintro ⟨x, hx, hp⟩
    exact ⟨x, (hwf.occurs_iff_of_le h hid).mpr hx, lookup_of_le h hp⟩

theorem mentionsParam_iff {id : TypeId} : t.mentionsParam id = true ↔ ∃ p, t.Mentions id p := by
  unfold mentionsParam
  rw [List.any_eq_true]
  constructor
  · rintro ⟨x, hx, hparam⟩
    obtain ⟨p, hp⟩ := Option.isSome_iff_exists.mp hparam
    exact ⟨p, x, (mem_walk_iff.mp hx).1, param?_eq_some_iff.mp hp⟩
  · rintro ⟨p, x, hx, hdata⟩
    refine ⟨x, mem_walk_iff.mpr ⟨hx, isKnown_of_lookup hdata⟩, ?_⟩
    rw [param?_eq_some_iff.mpr hdata]
    rfl

theorem WellFormed.mentionsParam_eq (hwf : t.WellFormed) (h : t ≤ t') {id : TypeId}
    (hid : t.Issued id) : t'.mentionsParam id = t.mentionsParam id := by
  rw [Bool.eq_iff_iff, mentionsParam_iff, mentionsParam_iff]
  exact exists_congr fun p => hwf.mentions_iff_of_le h hid

/-! ## Unions -/

/-- A type mentions what the members that it contributes to a union mention. -/
theorem mentions_membersOf_iff {id : TypeId} {p : Param} :
    (∃ x ∈ t.membersOf id, t.Mentions x p) ↔ t.Mentions id p := by
  rcases t.membersOf_eq_or id with ⟨members, hdata, hmembers⟩ | ⟨-, hself⟩
  · -- a union is no parameter, so it mentions what its members do
    rw [@mentions_iff _ t id p, hdata, children_of_lookup hdata, hmembers]
    simp [childrenOf]
  · simp [hself]

theorem mentions_parts_iff {ids : List TypeId} {p : Param} :
    (∃ x ∈ t.parts ids, t.Mentions x p) ↔ ∃ id ∈ ids, t.Mentions id p := by
  constructor
  · rintro ⟨x, hx, hp⟩
    obtain ⟨id, hid, hmember⟩ := mem_flatten.mp (List.mem_of_mem_filter hx)
    exact ⟨id, hid, mentions_membersOf_iff.mp ⟨x, hmember, hp⟩⟩
  · rintro ⟨id, hid, hp⟩
    obtain ⟨x, hmember, hx⟩ := mentions_membersOf_iff.mpr hp
    refine ⟨x, List.mem_filter.mpr ⟨mem_flatten.mpr ⟨id, hid, hmember⟩, ?_⟩, hx⟩
    -- `Never` mentions nothing, so that dropping it loses nothing
    rw [decide_eq_true_iff]
    rintro rfl
    exact not_mentions_of_intrinsic rfl hx

/-- A union that is not intrinsic mentions what its members mention. -/
theorem Joins.mentions_iff {members : List TypeId} {id : TypeId} (h : t.Joins members id)
    (huser : id.isIntrinsic = false) {p : Param} :
    t.Mentions id p ↔ ∃ x ∈ members, t.Mentions x p := by
  rcases h with hintrinsic | rfl | ⟨list, hdata, rfl⟩
  · rw [huser] at hintrinsic
    cases hintrinsic
  · simp
  · rw [← @mentions_membersOf_iff _ t id p, membersOf_of_union hdata]

/-- A union mentions nothing that its members do not mention. -/
theorem Joins.mentions {members : List TypeId} {id : TypeId} (h : t.Joins members id) {p : Param}
    (hp : t.Mentions id p) : ∃ x ∈ members, t.Mentions x p := by
  cases hintrinsic : id.isIntrinsic with
  | true => exact absurd hp (not_mentions_of_intrinsic hintrinsic)
  | false => exact (h.mentions_iff hintrinsic).mp hp

/-! ## Built types -/

/-- The tuple of issued items mentions nothing that these do not mention. -/
theorem WellFormed.tuple_mentions (hwf : t.WellFormed) {es : List (Element TypeId)}
    (hes : ∀ e ∈ es, t.Issued e.item) :
    Repeatable t (tuple es) fun id t' =>
      t'.Issued id ∧ ∀ p, t'.Mentions id p → ∃ e ∈ es, t.Mentions e.item p := by
  refine (repeatable_tuple hwf hes).mono ?_
  rintro id t' hle _ _ ⟨hid, hintrinsic | ⟨list, hdata, rfl⟩⟩
  · exact ⟨hid, fun p hp => absurd hp (not_mentions_of_intrinsic hintrinsic)⟩
  · refine ⟨hid, fun p hp => ?_⟩
    obtain ⟨c, hc, hp⟩ := mentions_childrenOf (.inr hdata) (by simp) hp
    obtain ⟨e, he, rfl⟩ := List.mem_map.mp hc
    exact ⟨e, he, (hwf.mentions_iff_of_le hle (hes e he)).mp hp⟩

/-- The union of issued types mentions nothing that these do not mention. -/
theorem WellFormed.union_mentions (hwf : t.WellFormed) {ids : List TypeId}
    (hids : ∀ id ∈ ids, t.Issued id) :
    Repeatable t (union ids) fun id t' =>
      t'.Issued id ∧ ∀ p, t'.Mentions id p → ∃ id ∈ ids, t.Mentions id p := by
  refine (repeatable_union hwf hids).mono ?_
  rintro id t' hle _ _ ⟨hid, hjoins⟩
  refine ⟨hid, fun p hp => ?_⟩
  obtain ⟨x, hx, hp⟩ := hjoins.mentions hp
  have hissued := issued_of_mem_flatten hwf hids (List.mem_of_mem_filter hx)
  exact mentions_parts_iff.mp ⟨x, hx, (hwf.mentions_iff_of_le hle hissued).mp hp⟩

/-- The union of issued types mentions all that these mention, unless it is intrinsic. -/
theorem WellFormed.mentions_union (hwf : t.WellFormed) {ids : List TypeId}
    (hids : ∀ id ∈ ids, t.Issued id) (huser : ((union ids).run t).1.isIntrinsic = false)
    {id : TypeId} (hid : id ∈ ids) {p : Param} (hp : t.Mentions id p) :
    ((union ids).run t).2.Mentions ((union ids).run t).1 p := by
  have hunion := repeatable_union hwf hids
  obtain ⟨x, hx, hp⟩ := mentions_parts_iff.mpr ⟨id, hid, hp⟩
  have hissued := issued_of_mem_flatten hwf hids (List.mem_of_mem_filter hx)
  exact (hunion.post.2.mentions_iff huser).mpr
    ⟨x, hx, (hwf.mentions_iff_of_le hunion.le hissued).mpr hp⟩

end Supertypes.Interner
