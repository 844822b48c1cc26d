import Supertypes.Proofs.InStep
import Supertypes.Proofs.Renaming

/-!
# Building types in step

Two tables in which types are built from types that are the same up to a renaming. What is built
is the same again, as long as the tables have room.

- `Interner.Abreast`: two well-formed tables with room, and a renaming that is one to one.
- `Interner.inStep_inst`, `Interner.inStep_tuple` and `Interner.inStep_union`: building the same
  types. The types that a union is made of may come in any order.
-/

namespace Supertypes

variable [Digest TypeData]

namespace Interner

variable {t t' : Interner} {ρ : Renaming} {x x' : TypeId}

/-! ## Builders only add -/

namespace Grows

omit [Digest TypeData] in
instance internTypes (ids : List TypeId) : Grows (internTypes ids) :=
  ⟨fun t => ⟨t.types.le_refl, t.typeLists.le_intern ids, t.elementLists.le_refl⟩⟩

omit [Digest TypeData] in
instance internElements (es : List (Element TypeId)) : Grows (internElements es) :=
  ⟨fun t => ⟨t.types.le_refl, t.typeLists.le_refl, t.elementLists.le_intern es⟩⟩

instance intern (data : TypeData) : Grows (intern data) := by
  have hadd : ∀ t : Interner, t ≤ { t with types := (t.types.intern TypeId.maxSlot data).2 } :=
    fun t => ⟨t.types.le_intern _ data, t.typeLists.le_refl, t.elementLists.le_refl⟩
  cases data with
  | never => exact .pure _
  | any reason => exact .pure _
  | inst i => exact ⟨hadd⟩
  | param p => exact ⟨hadd⟩
  | tuple elements => exact ⟨hadd⟩
  | union members => exact ⟨hadd⟩

omit [Digest TypeData] in
instance apply (head : ClassId) (args : List TypeId) : Grows (apply head args) := by
  unfold Interner.apply
  infer_instance

instance inst (i : Instance) : Grows (inst i) :=
  .intern (.inst i)

instance param (p : Param) : Grows (param p) :=
  .intern (.param p)

instance tuple (elements : List (Element TypeId)) : Grows (tuple elements) := by
  unfold Interner.tuple
  infer_instance

instance union (ids : List TypeId) : Grows (union ids) := by
  unfold Interner.union
  refine @Grows.bind _ _ _ _ .get fun t => ?_
  dsimp only
  split
  · infer_instance
  · split
    · infer_instance
    · infer_instance
    · infer_instance

instance tupleFallback (tuple : ClassId) (elements : List (Element TypeId)) :
    Grows (tupleFallback tuple elements) := by
  unfold Supertypes.tupleFallback
  infer_instance

end Grows

/-! ## What is found -/

omit [Digest TypeData] in
theorem Finds.internTypes {ids : List TypeId} {list : TypeListId}
    (h : t.Finds (internTypes ids) list) : t.IssuedList list ∧ t.typeList list = ids := by
  have hrun : ((⟨(t.typeLists.intern ids).1⟩ : TypeListId),
      { t with typeLists := (t.typeLists.intern ids).2 }) = (list, t) := h
  obtain ⟨hlist, htables⟩ := Prod.mk.inj hrun
  have hsame : (t.typeLists.intern ids).2 = t.typeLists := congrArg Interner.typeLists htables
  have hissued := t.typeLists.issued_intern ids
  have hget := t.typeLists.get_intern ids
  rw [hsame] at hissued hget
  subst hlist
  exact ⟨hissued, hget⟩

omit [Digest TypeData] in
theorem Finds.internElements {es : List (Element TypeId)} {list : ElementListId}
    (h : t.Finds (internElements es) list) :
    t.IssuedElements list ∧ t.elementList list = es := by
  have hrun : ((⟨(t.elementLists.intern es).1⟩ : ElementListId),
      { t with elementLists := (t.elementLists.intern es).2 }) = (list, t) := h
  obtain ⟨hlist, htables⟩ := Prod.mk.inj hrun
  have hsame : (t.elementLists.intern es).2 = t.elementLists :=
    congrArg Interner.elementLists htables
  have hissued := t.elementLists.issued_intern es
  have hget := t.elementLists.get_intern es
  rw [hsame] at hissued hget
  subst hlist
  exact ⟨hissued, hget⟩

/-- With room in the tables, a structure that is found has a handle that stands for it. -/
theorem Finds.intern (hwf : t.WellFormed) (hroom : t.HasRoom) {data : TypeData}
    (hnever : data ≠ .never) (hany : ∀ reason, data ≠ .any reason)
    (h : t.Finds (intern data) x) : t.lookup x = some data := by
  unfold Finds at h
  rw [intern_run hnever hany] at h
  obtain ⟨hx, htables⟩ := Prod.mk.inj h
  rcases t.types.intern_cases TypeId.maxSlot data with ⟨a, hfind, heq⟩ | ⟨-, hfull, -⟩ | ⟨-, -, heq⟩
  · have hget := Table.get?_of_find? hfind
    have huser : (TypeId.ofAddress a).isIntrinsic = false :=
      hroom.exact a (by rw [hget]; rfl)
    rw [heq] at hx
    have hx' : TypeId.ofAddress a = x := hx
    rcases TypeId.ofAddress_cases (Table.slot_le_of_find? hwf.bounded hfind) with
      hintrinsic | ⟨-, haddress⟩
    · rw [huser] at hintrinsic
      cases hintrinsic
    · rw [← hx', lookup_of_user huser, haddress]
      exact hget
  · have hlt : TypeId.maxSlot < (t.types.shard (shardOf data)).length := hfull
    have hle := hroom (shardOf data)
    omega
  · -- a new entry would have changed the tables
    have hentries := congrArg (fun tables => tables.types.entries.length) htables
    rw [heq] at hentries
    simp at hentries

/-! ## The same types -/

/-- Two well-formed tables in which every structure has found a place, with a renaming from the
types of the one to those of the other. -/
structure Abreast (ρ : Renaming) (t t' : Interner) : Prop where
  oneToOne : ρ.OneToOne
  wellFormed : t.WellFormed
  wellFormed' : t'.WellFormed
  room : t.HasRoom
  room' : t'.HasRoom

/-- Structures that are the same get handles that are the same. -/
theorem Abreast.inStep_intern (h : Abreast ρ t t') {data data' : TypeData}
    (hdata : SameData ρ t t' data data') :
    InStep t t' (Same ρ t t') (intern data) (intern data') := by
  have huser : data ≠ .never ∧ ∀ reason, data ≠ .any reason := by
    cases hdata <;> simp
  have huser' : data' ≠ .never ∧ ∀ reason, data' ≠ .any reason := by
    cases hdata <;> simp
  intro x x' hx hx'
  exact .of_data (hx.intern h.wellFormed h.room huser.1 huser.2)
    (hx'.intern h.wellFormed' h.room' huser'.1 huser'.2) hdata

/-- Counterparts of classes, applied to the same arguments, are the same instances. -/
theorem inStep_apply {c c' : ClassId} {args args' : List TypeId} (hc : ρ.cls c c')
    (hargs : List.Forall₂ (Same ρ t t') args args') :
    InStep t t' (SameInstance ρ t t') (apply c args) (apply c' args') := by
  unfold apply
  refine .bind (R := fun list list' => t.IssuedList list ∧ t'.IssuedList list' ∧
    List.Forall₂ (Same ρ t t') (t.typeList list) (t'.typeList list')) ?_ ?_
  · intro list list' hlist hlist'
    obtain ⟨hissued, heq⟩ := hlist.internTypes
    obtain ⟨hissued', heq'⟩ := hlist'.internTypes
    exact ⟨hissued, hissued', by rwa [heq, heq']⟩
  · rintro list list' ⟨hissued, hissued', hlists⟩
    exact .pure ⟨hissued, hissued', hc, hlists⟩

theorem Abreast.inStep_inst (h : Abreast ρ t t') {i i' : Instance}
    (hi : SameInstance ρ t t' i i') : InStep t t' (Same ρ t t') (inst i) (inst i') :=
  h.inStep_intern (.inst hi)

theorem Abreast.inStep_param (h : Abreast ρ t t') {p p' : Param} (hp : ρ.param p p') :
    InStep t t' (Same ρ t t') (param p) (param p') :=
  h.inStep_intern (.param hp)

/-- Tuples of the same elements are the same. -/
theorem Abreast.inStep_tuple (h : Abreast ρ t t') {es es' : List (Element TypeId)}
    (hes : List.Forall₂ (SameElement ρ t t') es es') :
    InStep t t' (Same ρ t t') (tuple es) (tuple es') := by
  unfold tuple
  refine .bind (R := fun list list' =>
    List.Forall₂ (SameElement ρ t t') (t.elementList list) (t'.elementList list')) ?_ ?_
  · intro list list' hlist hlist'
    rwa [hlist.internElements.2, hlist'.internElements.2]
  · exact fun list list' hlists => h.inStep_intern (.tuple hlists)

/-! ## Unions -/

theorem SameMembers.of_forall₂ {ids ids' : List TypeId} (h : List.Forall₂ (Same ρ t t') ids ids') :
    SameMembers ρ t t' ids ids' :=
  ⟨fun _ hm => exists_of_mem_left h hm, fun _ hm' => exists_of_mem_right h hm'⟩

section Unions

variable (h : Abreast ρ t t')

include h

theorem Abreast.isIntrinsic_eq (hx : Same ρ t t' x x') : x.isIntrinsic = x'.isIntrinsic := by
  rw [Bool.eq_iff_iff]
  constructor
  · intro hintrinsic
    rwa [← hx.eq_of_intrinsic h.wellFormed h.wellFormed' hintrinsic]
  · intro hintrinsic
    rwa [← hx.back.eq_of_intrinsic h.wellFormed' h.wellFormed hintrinsic]

/-- A test that only intrinsic types pass picks the same members from both. -/
theorem Abreast.filter_eq {ms ms' : List TypeId} (hms : SameMembers ρ t t' ms ms')
    (hascend : ms.Pairwise fun a b => a.word < b.word)
    (hascend' : ms'.Pairwise fun a b => a.word < b.word) {test : TypeId → Bool}
    (htest : ∀ m, test m = true → m.isIntrinsic = true) : ms.filter test = ms'.filter test := by
  refine eq_of_ascend (hascend.filter _) (hascend'.filter _) fun m => ?_
  rw [List.mem_filter, List.mem_filter, and_congr_left_iff]
  intro hm
  constructor
  · intro hmem
    obtain ⟨m', hmem', hsame⟩ := hms.1 m hmem
    rwa [hsame.eq_of_intrinsic h.wellFormed h.wellFormed' (htest m hm)]
  · intro hmem'
    obtain ⟨m', hmem, hsame⟩ := hms.2 m hmem'
    rwa [hsame.back.eq_of_intrinsic h.wellFormed' h.wellFormed (htest m hm)]

/-- The members that a type contributes are the same, and none of them is a union. -/
theorem Abreast.membersOf (hx : Same ρ t t' x x') :
    SameMembers ρ t t' (t.membersOf x) (t'.membersOf x') ∧
      ∀ m ∈ t.membersOf x, ∀ list, t.lookup m ≠ some (.union list) := by
  -- a type that is no union is its only member
  have hself : (∀ list, t.lookup x ≠ some (.union list)) →
      (∀ list, t'.lookup x' ≠ some (.union list)) →
      SameMembers ρ t t' (t.membersOf x) (t'.membersOf x') ∧
        ∀ m ∈ t.membersOf x, ∀ list, t.lookup m ≠ some (.union list) := by
    intro hnot hnot'
    rw [membersOf_of_not_union hnot, membersOf_of_not_union hnot']
    refine ⟨.of_forall₂ (.cons hx .nil), fun m hm list => ?_⟩
    rw [List.mem_singleton.mp hm]
    exact hnot list
  rcases (same_iff h.wellFormed h.wellFormed').mp hx with
    ⟨hintrinsic, rfl⟩ | ⟨data, data', hdata, hdata', hsame⟩
  · exact hself (not_union_of_intrinsic hintrinsic) (not_union_of_intrinsic hintrinsic)
  -- of the structures the unions alone have members of their own
  · cases hsame with
    | param => exact hself (by simp [hdata]) (by simp [hdata'])
    | inst => exact hself (by simp [hdata]) (by simp [hdata'])
    | tuple => exact hself (by simp [hdata]) (by simp [hdata'])
    | @union list list' hnormal _ hms =>
      rw [membersOf_of_union hdata, membersOf_of_union hdata']
      exact ⟨hms, hnormal.not_union⟩

/-- The members that are joined are the same, opened and without doubles. -/
theorem Abreast.flatten {ids ids' : List TypeId} (hids : SameMembers ρ t t' ids ids') :
    SameMembers ρ t t' (t.flatten ids) (t'.flatten ids') := by
  constructor
  · intro m hm
    obtain ⟨id, hid, hm⟩ := mem_flatten.mp hm
    obtain ⟨id', hid', hsame⟩ := hids.1 id hid
    obtain ⟨m', hm', hsame'⟩ := (h.membersOf hsame).1.1 m hm
    exact ⟨m', mem_flatten.mpr ⟨id', hid', hm'⟩, hsame'⟩
  · intro m' hm'
    obtain ⟨id', hid', hm'⟩ := mem_flatten.mp hm'
    obtain ⟨id, hid, hsame⟩ := hids.2 id' hid'
    obtain ⟨m, hm, hsame'⟩ := (h.membersOf hsame).1.2 m' hm'
    exact ⟨m, mem_flatten.mpr ⟨id, hid, hm⟩, hsame'⟩

/-- So are those of them that are kept. -/
theorem Abreast.parts {ids ids' : List TypeId} (hids : SameMembers ρ t t' ids ids') :
    SameMembers ρ t t' (t.parts ids) (t'.parts ids') := by
  have hflat := h.flatten hids
  have hnever : TypeId.never.isIntrinsic = true := rfl
  constructor
  · intro m hm
    obtain ⟨hmem, hne⟩ := List.mem_filter.mp hm
    obtain ⟨m', hmem', hsame⟩ := hflat.1 m hmem
    refine ⟨m', List.mem_filter.mpr ⟨hmem', ?_⟩, hsame⟩
    have heq := hsame.eq_iff h.oneToOne h.wellFormed h.wellFormed' (.leaf hnever)
    simpa [heq] using hne
  · intro m' hm'
    obtain ⟨hmem', hne⟩ := List.mem_filter.mp hm'
    obtain ⟨m, hmem, hsame⟩ := hflat.2 m' hmem'
    refine ⟨m, List.mem_filter.mpr ⟨hmem, ?_⟩, hsame⟩
    have heq := hsame.eq_iff h.oneToOne h.wellFormed h.wellFormed' (.leaf hnever)
    simpa [heq] using hne

/-- Two or more parts, without an `Any`, are in normal form. -/
theorem Abreast.normalMembers_parts {ids ids' : List TypeId} (hids : SameMembers ρ t t' ids ids')
    (hany : (t.flatten ids).find? TypeId.isAny = none) (htwo : 2 ≤ (t.parts ids).length) :
    t.NormalMembers (t.parts ids) := by
  refine Interner.normalMembers_parts hany htwo fun m hm => ?_
  obtain ⟨id, hid, hmem⟩ := mem_flatten.mp hm
  obtain ⟨id', -, hsame⟩ := hids.1 id hid
  exact (h.membersOf hsame).2 m hmem

end Unions

theorem SameMembers.back {ms ms' : List TypeId} (h : SameMembers ρ t t' ms ms') :
    SameMembers ρ.back t' t ms' ms := by
  refine ⟨fun m' hm' => ?_, fun m hm => ?_⟩
  · obtain ⟨m, hm, hsame⟩ := h.2 m' hm'
    exact ⟨m, hm, hsame.back⟩
  · obtain ⟨m', hm', hsame⟩ := h.1 m hm
    exact ⟨m', hm', hsame.back⟩

theorem Abreast.back (h : Abreast ρ t t') : Abreast ρ.back t' t where
  oneToOne := h.oneToOne.back
  wellFormed := h.wellFormed'
  wellFormed' := h.wellFormed
  room := h.room'
  room' := h.room

/-- What a union that is found is: an `Any` among its parts, or else `Never` without parts, the
only part, or the union of its parts. -/
theorem Finds.union (hwf : t.WellFormed) (hroom : t.HasRoom) {ids : List TypeId}
    (h : t.Finds (union ids) x) :
    (t.flatten ids).find? TypeId.isAny = some x ∨
      (t.flatten ids).find? TypeId.isAny = none ∧
        (t.parts ids = [] ∧ x = .never ∨ t.parts ids = [x] ∨
          2 ≤ (t.parts ids).length ∧
            ∃ list, t.lookup x = some (.union list) ∧ t.typeList list = t.parts ids) := by
  unfold Interner.union at h
  replace h := h.of_read
  dsimp only at h
  split at h
  · rename_i any hany
    rw [h.of_pure]
    exact .inl hany
  · rename_i hany
    refine .inr ⟨hany, ?_⟩
    split at h
    · rename_i hnil
      exact .inl ⟨hnil, h.of_pure⟩
    · rename_i single hsingle
      rw [h.of_pure]
      exact .inr (.inl hsingle)
    · rename_i hnil hsingle
      obtain ⟨list, hlist, hx⟩ := h.of_bind
      exact .inr (.inr ⟨two_le_length hnil hsingle, list,
        hx.intern hwf hroom (by simp) (by simp), hlist.internTypes.2⟩)

/-- Joining the same types, in whatever order. -/
theorem Abreast.inStep_union (h : Abreast ρ t t') {ids ids' : List TypeId}
    (hids : SameMembers ρ t t' ids ids') : InStep t t' (Same ρ t t') (union ids) (union ids') := by
  have hascend := t.ascend_flatten ids
  have hascend' := t'.ascend_flatten ids'
  have hanys := h.filter_eq (h.flatten hids) hascend hascend' fun m => isIntrinsic_of_isAny
  have hfind : (t'.flatten ids').find? TypeId.isAny = (t.flatten ids).find? TypeId.isAny := by
    rw [← List.head?_filter, ← List.head?_filter, hanys]
  -- as many members are left on either side, so both unions take the same form
  have hparts := h.parts hids
  have hlength : (t.parts ids).length = (t'.parts ids').length :=
    hparts.length_eq h.oneToOne h.wellFormed h.wellFormed' (nodup_of_ascend (hascend.filter _))
      (nodup_of_ascend (hascend'.filter _))
  intro x x' hx hx'
  rcases hx.union h.wellFormed h.room with hany | ⟨hany, hx⟩
  · -- an `Any` is the same in all tables
    rcases hx'.union h.wellFormed' h.room' with hany' | ⟨hany', -⟩
    · rw [hfind, hany] at hany'
      obtain rfl := Option.some.inj hany'
      exact .leaf (isIntrinsic_of_isAny (List.find?_some hany))
    · rw [hfind, hany] at hany'
      cases hany'
  · rcases hx'.union h.wellFormed' h.room' with hany' | ⟨hany', hx'⟩
    · rw [hfind, hany] at hany'
      cases hany'
    -- nothing left, one member, or several: the forms cannot be mixed, for the lengths agree
    · rcases hx with ⟨hnil, rfl⟩ | hsingle | ⟨htwo, list, hdata, hlist⟩
      · rcases hx' with ⟨-, rfl⟩ | hsingle' | ⟨htwo', -⟩
        · exact .leaf rfl
        · rw [hnil, hsingle'] at hlength
          cases hlength
        · rw [hnil, List.length_nil] at hlength
          omega
      · rcases hx' with ⟨hnil', rfl⟩ | hsingle' | ⟨htwo', -⟩
        · rw [hsingle, hnil'] at hlength
          cases hlength
        · rw [hsingle, hsingle'] at hparts
          obtain ⟨m', hm', hsame⟩ := hparts.1 x (List.mem_singleton_self x)
          rwa [List.mem_singleton.mp hm'] at hsame
        · rw [hsingle, List.length_singleton] at hlength
          omega
      · rcases hx' with ⟨hnil', rfl⟩ | hsingle' | ⟨htwo', list', hdata', hlist'⟩
        · rw [hnil', List.length_nil] at hlength
          omega
        · rw [hsingle', List.length_singleton] at hlength
          omega
        · refine .of_data hdata hdata' (.union ?_ ?_ ?_)
          · rw [hlist]
            exact h.normalMembers_parts hids hany htwo
          · rw [hlist']
            exact h.back.normalMembers_parts hids.back hany' htwo'
          · rwa [hlist, hlist']

/-- The items of the same tuples, joined. -/
theorem Abreast.inStep_tupleFallback (h : Abreast ρ t t') {c c' : ClassId} (hc : ρ.cls c c')
    {es es' : List (Element TypeId)} (hes : List.Forall₂ (SameElement ρ t t') es es') :
    InStep t t' (SameInstance ρ t t') (tupleFallback c es) (tupleFallback c' es') := by
  unfold tupleFallback
  have hitems : List.Forall₂ (Same ρ t t') (es.map Element.item) (es'.map Element.item) := by
    rw [List.forall₂_map_left_iff, List.forall₂_map_right_iff]
    exact hes.imp fun _ _ h => h.2
  exact (h.inStep_union (.of_forall₂ hitems)).bind fun a a' ha => inStep_apply hc (.cons ha .nil)

end Interner

end Supertypes
