import Supertypes.Proofs.Repeatable

/-!
# Building types

- `Interner.repeatable_intern`, `Interner.repeatable_apply`, `Interner.repeatable_tuple` and
  `Interner.repeatable_union`: building types from issued handles is repeatable, and what the
  answer stands for.
- `Interner.Joins`: a type is the union of some types, or intrinsic.
- `Interner.Builds`: one step by which tables grow.
-/

namespace Supertypes.Interner

variable [Digest TypeData] {t : Interner}

/-- The handle of a structure that is new stands above all that was there. -/
theorem WellFormed.ranked_of_additions {t' : Interner} (hwf : t.WellFormed) (hle : t ≤ t')
    (hdata : ∀ data ∈ t'.types.entries, data ∈ t.types.entries ∨ t.IssuedData data) :
    ∃ rank : TypeId → Nat, ∀ id, rank id ≤ t'.size ∧ ∀ c ∈ t'.children id, rank c < rank id := by
  classical
  obtain ⟨rank, hrank⟩ := hwf.ranked
  have hsize : t.size ≤ t'.size := hle.1.length_le
  refine ⟨fun id => if t.Issued id then rank id else t'.size, fun id => ?_⟩
  dsimp only
  by_cases hid : t.Issued id
  · -- what was there keeps its rank, and so do its children
    rw [if_pos hid]
    have := (hrank id).1
    refine ⟨by omega, fun c hc => ?_⟩
    rw [hwf.children_eq hid hle] at hc
    rw [if_pos (hwf.issued_of_mem_children hc)]
    exact (hrank id).2 c hc
  · rw [if_neg hid]
    refine ⟨Nat.le_refl _, fun c hc => ?_⟩
    -- a new type is made of what was there, and is one more
    obtain ⟨data, hlookup, hchild⟩ := lookup_of_mem_children hc
    have huser : id.isIntrinsic = false := by
      cases hintrinsic : id.isIntrinsic with
      | true => exact absurd (.inl hintrinsic) hid
      | false => rfl
    have hentry : data ∈ t'.types.entries := by
      rw [lookup_of_user huser] at hlookup
      exact Table.mem_of_get? hlookup
    have hissued : t.IssuedData data := (hdata data hentry).elim (hwf.data_issued data) fun h => h
    rw [hissued.childrenOf_eq hle] at hchild
    have hold := hwf.issued_of_mem_childrenOf hchild
    have hgrown : t.size < t'.size := by
      refine Nat.lt_of_le_of_ne hsize fun heq => hid ?_
      have htypes : t.types = t'.types := by
        have hentries := List.IsPrefix.eq_of_length hle.1 heq
        exact congrArg Table.mk hentries
      rw [lookup_of_user huser, ← htypes, ← lookup_of_user huser] at hlookup
      exact issued_of_lookup hlookup
    have := (hrank c).1
    rw [if_pos hold]
    omega

/-- Tables that have grown are well formed if what is new refers to issued handles. -/
theorem WellFormed.of_additions {t' : Interner} (hwf : t.WellFormed) (hle : t ≤ t')
    (hbounded : t'.types.Bounded TypeId.maxSlot) (hnodup : t'.types.entries.Nodup)
    (htypesDistinct : t'.typeLists.Distinct) (helementsDistinct : t'.elementLists.Distinct)
    (hdata : ∀ data ∈ t'.types.entries, data ∈ t.types.entries ∨ t.IssuedData data)
    (htypes : ∀ ids ∈ t'.typeLists.stored,
      ids ∈ t.typeLists.stored ∨ ∀ id ∈ ids, t.Issued id)
    (helements : ∀ es ∈ t'.elementLists.stored,
      es ∈ t.elementLists.stored ∨ ∀ e ∈ es, t.Issued e.item) : t'.WellFormed where
  bounded := hbounded
  data_issued := by
    intro data hmem
    rcases hdata data hmem with hold | hnew
    · exact (hwf.data_issued data hold).of_le hle
    · exact hnew.of_le hle
  types_issued := by
    intro ids hmem id hid
    rcases htypes ids hmem with hold | hnew
    · exact (hwf.types_issued ids hold id hid).of_le hle
    · exact (hnew id hid).of_le hle
  elements_issued := by
    intro es hmem e he
    rcases helements es hmem with hold | hnew
    · exact (hwf.elements_issued es hold e he).of_le hle
    · exact (hnew e he).of_le hle
  types_nodup := hnodup
  typeLists_distinct := htypesDistinct
  elementLists_distinct := helementsDistinct
  ranked := hwf.ranked_of_additions hle hdata

/-! ## Lists and structures -/

/-- Interning a list of issued types. -/
theorem repeatable_internTypes (hwf : t.WellFormed) {ids : List TypeId}
    (hids : ∀ id ∈ ids, t.Issued id) :
    Repeatable t (internTypes ids) fun list t' => t'.IssuedList list ∧ t'.typeList list = ids := by
  have hrun : (internTypes ids).run t =
      (⟨(t.typeLists.intern ids).1⟩, { t with typeLists := (t.typeLists.intern ids).2 }) := rfl
  have hle : t ≤ ((internTypes ids).run t).2 :=
    ⟨t.types.le_refl, t.typeLists.le_intern ids, t.elementLists.le_refl⟩
  refine ⟨hle, ?_, ?_, ?_⟩
  · refine hwf.of_additions hle hwf.bounded hwf.types_nodup (hwf.typeLists_distinct.intern ids)
      hwf.elementLists_distinct (fun _ => .inl) ?_ fun _ => .inl
    intro list hlist
    rcases ListTable.mem_stored_intern hlist with hold | rfl
    · exact .inl hold
    · exact .inr hids
  · -- once more, at a later time
    intro t' hle' _
    rw [hrun] at hle' ⊢
    have hagain : t'.typeLists.intern ids = ((t.typeLists.intern ids).1, t'.typeLists) :=
      ListTable.intern_again hle'.2.1
    show ((⟨(t'.typeLists.intern ids).1⟩ : TypeListId),
      { t' with typeLists := (t'.typeLists.intern ids).2 }) = _
    rw [hagain]
  · exact ⟨t.typeLists.issued_intern ids, t.typeLists.get_intern ids⟩

/-- Interning a list of tuple elements with issued items. -/
theorem repeatable_internElements (hwf : t.WellFormed) {es : List (Element TypeId)}
    (hes : ∀ e ∈ es, t.Issued e.item) :
    Repeatable t (internElements es) fun list t' =>
      t'.IssuedElements list ∧ t'.elementList list = es := by
  have hrun : (internElements es).run t =
      (⟨(t.elementLists.intern es).1⟩, { t with elementLists := (t.elementLists.intern es).2 }) :=
    rfl
  have hle : t ≤ ((internElements es).run t).2 :=
    ⟨t.types.le_refl, t.typeLists.le_refl, t.elementLists.le_intern es⟩
  refine ⟨hle, ?_, ?_, ?_⟩
  · refine hwf.of_additions hle hwf.bounded hwf.types_nodup hwf.typeLists_distinct
      (hwf.elementLists_distinct.intern es) (fun _ => .inl) (fun _ => .inl) ?_
    intro list hlist
    rcases ListTable.mem_stored_intern hlist with hold | rfl
    · exact .inl hold
    · exact .inr hes
  · -- once more, at a later time
    intro t' hle' _
    rw [hrun] at hle' ⊢
    have hagain : t'.elementLists.intern es = ((t.elementLists.intern es).1, t'.elementLists) :=
      ListTable.intern_again hle'.2.2
    show ((⟨(t'.elementLists.intern es).1⟩ : ElementListId),
      { t' with elementLists := (t'.elementLists.intern es).2 }) = _
    rw [hagain]
  · exact ⟨t.elementLists.issued_intern es, t.elementLists.get_intern es⟩

/-- What interning a structure does, if the structure needs the table. -/
theorem intern_run {data : TypeData} (hnever : data ≠ .never)
    (hany : ∀ reason, data ≠ .any reason) :
    (intern data).run t =
      (((t.types.intern TypeId.maxSlot data).1.map TypeId.ofAddress).getD (.any .fromError),
        { t with types := (t.types.intern TypeId.maxSlot data).2 }) := by
  cases data with
  | never => exact absurd rfl hnever
  | any reason => exact absurd rfl (hany reason)
  | inst i => rfl
  | param p => rfl
  | tuple elements => rfl
  | union members => rfl

/-- Interning a structure that refers to an issued list. The handle stands for the structure,
unless the shard was full or its last handles ran over. -/
theorem repeatable_intern (hwf : t.WellFormed) {data : TypeData} (hdata : t.IssuedData data) :
    Repeatable t (intern data) fun id t' =>
      t'.Issued id ∧ (id.isIntrinsic = true ∨ t'.lookup id = some data) := by
  -- `Never` and the `Any`s have handles of their own
  by_cases hnever : data = .never
  · subst hnever
    exact .pure hwf ⟨issued_never, .inl rfl⟩
  by_cases hany : ∃ reason, data = .any reason
  · obtain ⟨reason, rfl⟩ := hany
    exact .pure hwf ⟨issued_any reason, .inl (TypeId.isIntrinsic_any reason)⟩
  have hany' : ∀ reason, data ≠ .any reason := fun reason h => hany ⟨reason, h⟩
  have hrun := intern_run (t := t) hnever hany'
  have hle : t ≤ ((intern data).run t).2 := by
    rw [hrun]
    exact ⟨Table.le_intern _ _ _, t.typeLists.le_refl, t.elementLists.le_refl⟩
  refine ⟨hle, ?_, ?_, ?_⟩
  · rw [hrun] at hle ⊢
    refine hwf.of_additions hle (hwf.bounded.intern data)
      (Table.nodup_intern hwf.types_nodup _ data) hwf.typeLists_distinct hwf.elementLists_distinct
      ?_ (fun _ => .inl) fun _ => .inl
    intro d hd
    rcases Table.mem_entries_intern hd with hold | rfl
    · exact .inl hold
    · exact .inr hdata
  · -- once more, at a later time
    intro t' hle' hwf'
    rw [hrun] at hle' ⊢
    rw [intern_run hnever hany', Table.intern_again hwf'.bounded hle'.1]
  · rw [hrun]
    cases haddr : (t.types.intern TypeId.maxSlot data).1 with
    | none => exact ⟨issued_any .fromError, .inl rfl⟩
    | some a =>
      -- the handle reads as the address, unless it has run over
      have hfind := Table.find?_intern haddr
      have hslot := Table.slot_le_of_find? (hwf.bounded.intern data) hfind
      rcases TypeId.ofAddress_cases hslot with hintrinsic | ⟨huser, haddress⟩
      · exact ⟨.inl hintrinsic, .inl hintrinsic⟩
      · have hlookup : ({ t with types := (t.types.intern TypeId.maxSlot data).2 } :
            Interner).lookup (TypeId.ofAddress a) = some data := by
          rw [lookup_of_user huser, haddress]
          exact Table.get?_of_find? hfind
        exact ⟨issued_of_lookup hlookup, .inr hlookup⟩

/-- Applying a class to issued arguments. -/
theorem repeatable_apply (hwf : t.WellFormed) (head : ClassId) {args : List TypeId}
    (hargs : ∀ id ∈ args, t.Issued id) :
    Repeatable t (apply head args) fun i t' =>
      i.head = head ∧ t'.IssuedList i.args ∧ t'.args i = args := by
  refine (repeatable_internTypes hwf hargs).bind ?_
  intro list t' _ hwf' _ hlist
  exact .pure hwf' ⟨rfl, hlist⟩

/-- The tuple of issued items. -/
theorem repeatable_tuple (hwf : t.WellFormed) {es : List (Element TypeId)}
    (hes : ∀ e ∈ es, t.Issued e.item) :
    Repeatable t (tuple es) fun id t' =>
      t'.Issued id ∧ (id.isIntrinsic = true ∨
        ∃ list, t'.lookup id = some (.tuple list) ∧ t'.elementList list = es) := by
  refine (repeatable_internElements hwf hes).bind ?_
  rintro list t₁ _ hwf₁ _ ⟨hissued, helements⟩
  have hdata : t₁.IssuedData (.tuple list) := hissued
  refine (repeatable_intern hwf₁ hdata).mono ?_
  rintro id t₂ hle₂ _ _ ⟨hid, hdata⟩
  refine ⟨hid, hdata.imp_right fun hlookup => ⟨list, hlookup, ?_⟩⟩
  rw [hissued.elementList_eq hle₂, helements]

/-! ## Unions -/

omit [Digest TypeData] in
theorem mem_insertMember {id x : TypeId} {ids : List TypeId} :
    x ∈ insertMember id ids ↔ x = id ∨ x ∈ ids := by
  induction ids with
  | nil => simp [insertMember]
  | cons first rest ih =>
    unfold insertMember
    split
    · simp
    · split
      · rename_i heq
        simp [heq]
      · rw [List.mem_cons, ih, List.mem_cons]
        tauto

/-- The members of a union are those that its types contribute. -/
theorem mem_flatten {ids : List TypeId} {x : TypeId} :
    x ∈ t.flatten ids ↔ ∃ id ∈ ids, x ∈ t.membersOf id := by
  rw [← List.mem_flatMap]
  unfold flatten
  induction ids.flatMap t.membersOf with
  | nil => simp
  | cons first rest ih => rw [List.foldr_cons, mem_insertMember, ih, List.mem_cons]

theorem issued_of_mem_flatten (hwf : t.WellFormed) {ids : List TypeId}
    (hids : ∀ id ∈ ids, t.Issued id) {x : TypeId}
    (h : x ∈ t.flatten ids) : t.Issued x := by
  obtain ⟨id, hid, hx⟩ := mem_flatten.mp h
  rcases t.membersOf_eq_or id with ⟨list, -, hlist⟩ | ⟨-, hself⟩
  · rw [hlist] at hx
    exact hwf.issued_of_mem_typeList hx
  · rw [hself] at hx
    exact List.mem_singleton.mp hx ▸ hids id hid

/-- The types that the union of `ids` is made of. -/
def parts (t : Interner) (ids : List TypeId) : List TypeId :=
  (t.flatten ids).filter (· ≠ .never)

/-- `id` stands for the union of `members`, unless it is intrinsic. -/
def Joins (t : Interner) (members : List TypeId) (id : TypeId) : Prop :=
  id.isIntrinsic = true ∨ members = [id] ∨
    ∃ list, t.lookup id = some (.union list) ∧ t.typeList list = members

omit [Digest TypeData] in
theorem exists_any_of_isAny {id : TypeId} (h : id.isAny = true) : ∃ reason, id = .any reason := by
  unfold TypeId.isAny TypeId.anyReason? at h
  split at h
  · exact ⟨_, ‹_›⟩
  · split at h
    · exact ⟨_, ‹_›⟩
    · split at h
      · exact ⟨_, ‹_›⟩
      · cases h

omit [Digest TypeData] in
theorem isIntrinsic_of_isAny {id : TypeId} (h : id.isAny = true) : id.isIntrinsic = true := by
  obtain ⟨reason, rfl⟩ := exists_any_of_isAny h
  exact TypeId.isIntrinsic_any reason

/-- The union of issued types. -/
theorem repeatable_union (hwf : t.WellFormed) {ids : List TypeId} (hids : ∀ id ∈ ids, t.Issued id) :
    Repeatable t (union ids) fun id t' => t'.Issued id ∧ t'.Joins (t.parts ids) id := by
  unfold union
  refine .read ?_ ?_
  · intro t' hle _
    rw [hwf.flatten_eq hids hle]
  have hparts : ∀ id ∈ t.parts ids, t.Issued id := fun id hid =>
    issued_of_mem_flatten hwf hids (List.mem_of_mem_filter hid)
  dsimp only
  split
  · -- an `Any` absorbs the others
    rename_i any hany
    have hintrinsic := isIntrinsic_of_isAny (List.find?_some hany)
    exact .pure hwf ⟨.inl hintrinsic, .inl hintrinsic⟩
  · split
    · -- nothing is left to join
      exact .pure hwf ⟨issued_never, .inl rfl⟩
    · -- a single type stands for itself
      rename_i single hsingle
      have hparts' : t.parts ids = [single] := hsingle
      refine .pure hwf ⟨hparts single ?_, .inr (.inl hparts')⟩
      rw [hparts']
      exact List.mem_singleton_self single
    · refine (repeatable_internTypes hwf hparts).bind ?_
      rintro list t₁ _ hwf₁ _ ⟨hissued, hlist⟩
      have hdata : t₁.IssuedData (.union list) := hissued
      refine (repeatable_intern hwf₁ hdata).mono ?_
      rintro id t₂ hle₂ _ _ ⟨hid, hdata⟩
      refine ⟨hid, hdata.imp_right fun hlookup => .inr ⟨list, hlookup, ?_⟩⟩
      rw [hissued.typeList_eq hle₂, hlist]

/-! ## How tables grow -/

/-- One step by which tables grow, which refers to issued handles only. Building a type takes a
few of them: a tuple interns its elements and then a structure. -/
inductive Builds (t : Interner) : Interner → Prop
  | types (ids : List TypeId) (h : ∀ id ∈ ids, t.Issued id) :
    Builds t ((internTypes ids).run t).2
  | elements (es : List (Element TypeId)) (h : ∀ e ∈ es, t.Issued e.item) :
    Builds t ((internElements es).run t).2
  | data (data : TypeData) (h : t.IssuedData data) : Builds t ((intern data).run t).2

theorem Builds.grows (hwf : t.WellFormed) {t' : Interner} (h : Builds t t') :
    t ≤ t' ∧ t'.WellFormed := by
  cases h with
  | types ids h =>
    have hlist := repeatable_internTypes hwf h
    exact ⟨hlist.le, hlist.wellFormed⟩
  | elements es h =>
    have hlist := repeatable_internElements hwf h
    exact ⟨hlist.le, hlist.wellFormed⟩
  | data data h =>
    have hid := repeatable_intern hwf h
    exact ⟨hid.le, hid.wellFormed⟩

end Supertypes.Interner
