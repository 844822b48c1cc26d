import Supertypes.Proofs.Expansion

/-!
# Proper types

What a type may be made of is a `Vocabulary`: the intrinsic types and the parameters that may
occur in it, and the numbers of arguments that classes may be applied to.

- `Interner.Proper`: a type that is made of a vocabulary at every depth, its unions in normal
  form.
- `Interner.Conforms`: the same for a type that has just been built. When a table is exhausted an
  intrinsic handle takes the place of the new type; `Vocabulary.Spans` says that the vocabulary
  has room for that.
- `Interner.conforms_inst`, `Interner.conforms_tuple` and `Interner.conforms_union`: building
  types from proper ones.
- `Substitution.conforms_expand`: expanding a proper type through bindings from one vocabulary
  into another, which `Substitution.Carries` describes.
-/

namespace Supertypes

/-- What a type may be made of. -/
structure Vocabulary where
  leaf : TypeId → Prop
  param : Param → Prop
  /-- The class may be applied to so many arguments. -/
  takes : ClassId → Nat → Prop

variable [Digest TypeData]

namespace Interner

variable {t t' : Interner} {V W : Vocabulary}

/-! ## Unions in normal form -/

omit [Digest TypeData] in
/-- Members that ascend are distinct. -/
theorem nodup_of_ascend {members : List TypeId}
    (h : members.Pairwise fun a b => a.word < b.word) : members.Nodup := by
  refine h.imp ?_
  rintro a b hlt rfl
  exact UInt32.lt_irrefl a.word hlt

/-- The members of a union in normal form: two or more, strictly ascending, and no `Any`, no
`Never` and no union among them. -/
structure NormalMembers (t : Interner) (members : List TypeId) : Prop where
  two_le : 2 ≤ members.length
  ascend : members.Pairwise fun a b => a.word < b.word
  not_any : ∀ m ∈ members, m.isAny = false
  not_never : ∀ m ∈ members, m ≠ .never
  not_union : ∀ m ∈ members, ∀ list, t.lookup m ≠ some (.union list)

/-- Members in normal form stay so as the tables grow. -/
theorem NormalMembers.of_le {members : List TypeId} (h : t.NormalMembers members)
    (hmembers : ∀ m ∈ members, t.Issued m) (hle : t ≤ t') : t'.NormalMembers members where
  two_le := h.two_le
  ascend := h.ascend
  not_any := h.not_any
  not_never := h.not_never
  not_union := by
    intro m hm list
    rw [(hmembers m hm).lookup_eq hle]
    exact h.not_union m hm list

omit [Digest TypeData] in
/-- Putting a handle into an ascending list keeps it ascending. -/
theorem ascend_insertMember {id : TypeId} {ids : List TypeId}
    (h : ids.Pairwise fun a b => a.word < b.word) :
    (insertMember id ids).Pairwise fun a b => a.word < b.word := by
  induction ids with
  | nil => exact List.pairwise_singleton _ _
  | cons first rest ih =>
    obtain ⟨hfirst, hrest⟩ := List.pairwise_cons.mp h
    unfold insertMember
    split
    · -- the new handle comes first
      rename_i hlt
      refine List.pairwise_cons.mpr ⟨fun x hx => ?_, h⟩
      rcases List.mem_cons.mp hx with rfl | hx
      · exact hlt
      · exact UInt32.lt_trans hlt (hfirst x hx)
    · split
      · exact h
      · -- it goes somewhere behind the first
        rename_i hnlt hne
        refine List.pairwise_cons.mpr ⟨fun x hx => ?_, ih hrest⟩
        rcases mem_insertMember.mp hx with rfl | hx
        · have hle : first.word ≤ x.word := UInt32.not_lt.mp hnlt
          refine UInt32.lt_of_le_of_ne hle fun heq => hne ?_
          exact congrArg TypeId.mk heq.symm
        · exact hfirst x hx

/-- The members of a union ascend, whatever is joined. -/
theorem ascend_flatten (t : Interner) (ids : List TypeId) :
    (t.flatten ids).Pairwise fun a b => a.word < b.word := by
  unfold flatten
  induction ids.flatMap t.membersOf with
  | nil => exact .nil
  | cons first rest ih => exact ascend_insertMember ih

/-! ## Proper types -/

/-- The type is made of the vocabulary at every depth. -/
inductive Proper (t : Interner) (V : Vocabulary) : TypeId → Prop
  | leaf {id : TypeId} (hid : id.isIntrinsic = true) (hleaf : V.leaf id) : Proper t V id
  | param {id : TypeId} {p : Param} (hdata : t.lookup id = some (.param p)) (hp : V.param p) :
    Proper t V id
  | inst {id : TypeId} {i : Instance} (hdata : t.lookup id = some (.inst i))
    (htakes : V.takes i.head (t.args i).length) (hargs : ∀ a ∈ t.args i, Proper t V a) :
    Proper t V id
  | tuple {id : TypeId} {list : ElementListId} (hdata : t.lookup id = some (.tuple list))
    (hitems : ∀ e ∈ t.elementList list, Proper t V e.item) : Proper t V id
  | union {id : TypeId} {list : TypeListId} (hdata : t.lookup id = some (.union list))
    (hnormal : t.NormalMembers (t.typeList list)) (hmembers : ∀ m ∈ t.typeList list, Proper t V m) :
    Proper t V id

/-- The arguments are proper, and as many as the class may be applied to. -/
structure ProperInstance (t : Interner) (V : Vocabulary) (i : Instance) : Prop where
  issued : t.IssuedList i.args
  takes : V.takes i.head (t.args i).length
  args : ∀ a ∈ t.args i, t.Proper V a

namespace Proper

theorem issued {id : TypeId} (h : t.Proper V id) : t.Issued id := by
  cases h with
  | leaf hid _ => exact .inl hid
  | param hdata _ => exact issued_of_lookup hdata
  | inst hdata _ _ => exact issued_of_lookup hdata
  | tuple hdata _ => exact issued_of_lookup hdata
  | union hdata _ _ => exact issued_of_lookup hdata

/-- Later tables read a proper type as earlier ones do. -/
theorem of_le {id : TypeId} (h : t.Proper V id) (hwf : t.WellFormed) (hle : t ≤ t') :
    t'.Proper V id := by
  induction h with
  | leaf hid hleaf => exact .leaf hid hleaf
  | param hdata hp => exact .param (lookup_of_le hle hdata) hp
  | inst hdata htakes _ ih =>
    have hissued : t.IssuedData (.inst _) := hwf.issuedData_of_lookup hdata
    have hargs := IssuedList.args_eq hissued hle
    exact .inst (lookup_of_le hle hdata) (by rwa [hargs]) (by rwa [hargs])
  | tuple hdata _ ih =>
    have hissued : t.IssuedData (.tuple _) := hwf.issuedData_of_lookup hdata
    have helements := IssuedElements.elementList_eq hissued hle
    exact .tuple (lookup_of_le hle hdata) (by rwa [helements])
  | union hdata hnormal hmembers ih =>
    have hissued : t.IssuedData (.union _) := hwf.issuedData_of_lookup hdata
    have hlist := IssuedList.typeList_eq hissued hle
    refine .union (lookup_of_le hle hdata) ?_ (by rwa [hlist])
    rw [hlist]
    exact hnormal.of_le (fun m hm => (hmembers m hm).issued) hle

/-- A richer vocabulary. -/
theorem mono {id : TypeId} (h : t.Proper V id) (hleaf : ∀ x, V.leaf x → W.leaf x)
    (hparam : ∀ p, V.param p → W.param p) (htakes : ∀ c n, V.takes c n → W.takes c n) :
    t.Proper W id := by
  induction h with
  | leaf hid h => exact .leaf hid (hleaf _ h)
  | param hdata h => exact .param hdata (hparam _ h)
  | inst hdata h _ ih => exact .inst hdata (htakes _ _ h) ih
  | tuple hdata _ ih => exact .tuple hdata ih
  | union hdata hnormal _ ih => exact .union hdata hnormal ih

/-- A proper type that needs no table is a leaf of the vocabulary. -/
theorem leaf_of_intrinsic {id : TypeId} (h : t.Proper V id) (hid : id.isIntrinsic = true) :
    V.leaf id := by
  cases h with
  | leaf _ hleaf => exact hleaf
  | param hdata _ => simpa using data_of_intrinsic hid hdata
  | inst hdata _ _ => simpa using data_of_intrinsic hid hdata
  | tuple hdata _ => simpa using data_of_intrinsic hid hdata
  | union hdata _ _ => simpa using data_of_intrinsic hid hdata

/-! ### What stands for a known structure -/

/-- A class in a proper type has as many arguments as it takes. -/
theorem takes_of_inst {id : TypeId} {i : Instance} (h : t.Proper V id)
    (hdata : t.lookup id = some (.inst i)) : V.takes i.head (t.args i).length := by
  cases h with
  | leaf hid _ => simpa using data_of_intrinsic hid hdata
  | inst hdata' htakes _ =>
    cases hdata'.symm.trans hdata
    exact htakes
  | param hdata' _ => cases hdata'.symm.trans hdata
  | tuple hdata' _ => cases hdata'.symm.trans hdata
  | union hdata' _ _ => cases hdata'.symm.trans hdata

/-- A parameter in a proper type belongs to the vocabulary. -/
theorem param_of_param {id : TypeId} {p : Param} (h : t.Proper V id)
    (hdata : t.lookup id = some (.param p)) : V.param p := by
  cases h with
  | leaf hid _ => simpa using data_of_intrinsic hid hdata
  | param hdata' hp =>
    cases hdata'.symm.trans hdata
    exact hp
  | inst hdata' _ _ => cases hdata'.symm.trans hdata
  | tuple hdata' _ => cases hdata'.symm.trans hdata
  | union hdata' _ _ => cases hdata'.symm.trans hdata

/-- A union in a proper type is in normal form. -/
theorem normal_of_union {id : TypeId} {list : TypeListId} (h : t.Proper V id)
    (hdata : t.lookup id = some (.union list)) : t.NormalMembers (t.typeList list) := by
  cases h with
  | leaf hid _ => simpa using data_of_intrinsic hid hdata
  | union hdata' hnormal _ =>
    cases hdata'.symm.trans hdata
    exact hnormal
  | param hdata' _ => cases hdata'.symm.trans hdata
  | inst hdata' _ _ => cases hdata'.symm.trans hdata
  | tuple hdata' _ => cases hdata'.symm.trans hdata

/-- The children of a proper type are proper. -/
theorem of_mem_children {id : TypeId} (h : t.Proper V id) : ∀ c ∈ t.children id, t.Proper V c := by
  intro c hc
  obtain ⟨data, hdata, hchild⟩ := lookup_of_mem_children hc
  cases h with
  | leaf hid _ =>
    rcases data_of_intrinsic hid hdata with rfl | ⟨reason, rfl⟩
    · exact absurd hchild List.not_mem_nil
    · exact absurd hchild List.not_mem_nil
  | param hdata' _ =>
    cases hdata'.symm.trans hdata
    exact absurd hchild List.not_mem_nil
  | inst hdata' _ hargs =>
    cases hdata'.symm.trans hdata
    exact hargs c hchild
  | tuple hdata' hitems =>
    cases hdata'.symm.trans hdata
    obtain ⟨e, he, rfl⟩ := List.mem_map.mp hchild
    exact hitems e he
  | union hdata' _ hmembers =>
    cases hdata'.symm.trans hdata
    exact hmembers c hchild

/-- All that occurs in a proper type is proper. -/
theorem of_occurs {id x : TypeId} (h : t.Proper V id) (hx : t.Occurs id x) : t.Proper V x := by
  induction hx with
  | refl => exact h
  | tail _ hstep ih => exact ih.of_mem_children _ hstep

/-- What a proper type contributes to a union is proper, and no union. -/
theorem of_mem_membersOf {id x : TypeId} (h : t.Proper V id) (hx : x ∈ t.membersOf id) :
    t.Proper V x ∧ ∀ list, t.lookup x ≠ some (.union list) := by
  rcases t.membersOf_eq_or id with ⟨list, hdata, hlist⟩ | ⟨hno, hself⟩
  · rw [hlist] at hx
    refine ⟨h.of_mem_children x ?_, (h.normal_of_union hdata).not_union x hx⟩
    rw [children_of_lookup hdata]
    exact hx
  · rw [hself] at hx
    rw [List.mem_singleton.mp hx]
    exact ⟨h, hno⟩

/-- A proper type contributes something to a union. -/
theorem exists_mem_membersOf {id : TypeId} (h : t.Proper V id) : ∃ x, x ∈ t.membersOf id := by
  rcases t.membersOf_eq_or id with ⟨list, hdata, hlist⟩ | ⟨-, hself⟩
  · rw [hlist]
    have htwo := (h.normal_of_union hdata).two_le
    exact List.exists_mem_of_length_pos (by omega)
  · rw [hself]
    exact ⟨id, List.mem_singleton_self id⟩

end Proper

/-- A proper instance stays proper as the tables grow. -/
theorem ProperInstance.of_le {i : Instance} (h : t.ProperInstance V i) (hwf : t.WellFormed)
    (hle : t ≤ t') : t'.ProperInstance V i := by
  have hargs := h.issued.args_eq hle
  refine ⟨h.issued.of_le hle, ?_, ?_⟩
  · rw [hargs]
    exact h.takes
  · rw [hargs]
    exact fun a ha => (h.args a ha).of_le hwf hle

/-! ## Room for what a table cannot hold -/

/-- The vocabulary has the intrinsic handles that take the place of types which the tables cannot
hold: the error `Any`, and handles that run over the end of the word. -/
structure Spans (V : Vocabulary) (t : Interner) : Prop where
  error : V.leaf (.any .fromError)
  overrun : ∀ a, (t.types.get? a).isSome = true → (TypeId.ofAddress a).isIntrinsic = true →
    V.leaf (.ofAddress a)

/-- Growing tables have no more room for a vocabulary to span. -/
theorem Spans.of_le (h : Spans V t') (hle : t ≤ t') : Spans V t where
  error := h.error
  overrun := by
    intro a ha
    obtain ⟨data, hdata⟩ := Option.isSome_iff_exists.mp ha
    exact h.overrun a (Option.isSome_iff_exists.mpr ⟨data, Table.get?_of_le hle.1 hdata⟩)

theorem spans_of_leaf (h : ∀ x, V.leaf x) (t : Interner) : Spans V t :=
  ⟨h _, fun _ _ _ => h _⟩

/-- A type that has been built from the vocabulary. -/
def Conforms (V : Vocabulary) (id : TypeId) (t : Interner) : Prop :=
  t.Issued id ∧ (Spans V t → t.Proper V id)

theorem lasting_conforms (V : Vocabulary) : Repeatable.Lasting (Conforms V) :=
  fun _ _ _ hwf hle h =>
    ⟨h.1.of_le hle, fun hspans => (h.2 (hspans.of_le hle)).of_le hwf hle⟩

theorem Proper.conforms {id : TypeId} (h : t.Proper V id) : Conforms V id t :=
  ⟨h.issued, fun _ => h⟩

/-- An instance that has been built from the vocabulary. -/
def ConformsInstance (V : Vocabulary) (i : Instance) (t : Interner) : Prop :=
  t.IssuedList i.args ∧ V.takes i.head (t.args i).length ∧ ∀ a ∈ t.args i, Conforms V a t

theorem ConformsInstance.proper {i : Instance} (h : ConformsInstance V i t) (hspans : Spans V t) :
    t.ProperInstance V i :=
  ⟨h.1, h.2.1, fun a ha => (h.2.2 a ha).2 hspans⟩

theorem ProperInstance.conforms {i : Instance} (h : t.ProperInstance V i) :
    ConformsInstance V i t :=
  ⟨h.issued, h.takes, fun a ha => (h.args a ha).conforms⟩

/-! ## Building -/

/-- A structure that a table cannot hold gives way to an intrinsic type of the vocabulary. -/
theorem leaf_intern {data : TypeData} (hnever : data ≠ .never)
    (hany : ∀ reason, data ≠ .any reason) (hspans : Spans V ((intern data).run t).2)
    (h : ((intern data).run t).1.isIntrinsic = true) : V.leaf ((intern data).run t).1 := by
  have hrun := intern_run (t := t) hnever hany
  rw [hrun] at hspans h ⊢
  cases haddr : (t.types.intern TypeId.maxSlot data).1 with
  | none => exact hspans.error
  | some a =>
    rw [haddr] at h
    have hget := Table.get?_of_find? (Table.find?_intern haddr)
    exact hspans.overrun a (Option.isSome_iff_exists.mpr ⟨data, hget⟩) h

/-- Interning a structure that is proper as soon as it is stored. -/
theorem conforms_intern (hwf : t.WellFormed) {data : TypeData} (hdata : t.IssuedData data)
    (hnever : data ≠ .never) (hany : ∀ reason, data ≠ .any reason)
    (hproper : ∀ id t', t ≤ t' → Spans V t' → t'.lookup id = some data → t'.Proper V id) :
    Repeatable t (intern data) (Conforms V) := by
  refine (repeatable_intern hwf hdata).run_eq.mono ?_
  rintro id t' hle _ _ ⟨⟨hid, hlookup⟩, hrun⟩
  refine ⟨hid, fun hspans => ?_⟩
  rcases hlookup with hintrinsic | hlookup
  · obtain ⟨rfl, rfl⟩ := Prod.mk.inj hrun
    exact .leaf hintrinsic (leaf_intern hnever hany hspans hintrinsic)
  · exact hproper id t' hle hspans hlookup

/-- The type of a proper instance. -/
theorem conforms_inst (hwf : t.WellFormed) {i : Instance} (hi : ConformsInstance V i t) :
    Repeatable t (inst i) (Conforms V) := by
  have hissued : t.IssuedData (.inst i) := hi.1
  refine conforms_intern hwf hissued (by simp) (by simp) ?_
  intro id t' hle hspans hdata
  have hi' := (hi.proper (hspans.of_le hle)).of_le hwf hle
  exact .inst hdata hi'.takes hi'.args

/-- A class applied to proper arguments. -/
theorem conforms_apply (hwf : t.WellFormed) {c : ClassId} {args : List TypeId}
    (htakes : V.takes c args.length) (hargs : ∀ a ∈ args, Conforms V a t) :
    Repeatable t (apply c args) fun i t' =>
      i.head = c ∧ t'.args i = args ∧ ConformsInstance V i t' := by
  refine (repeatable_apply hwf c fun a ha => (hargs a ha).1).mono ?_
  rintro i t' hle _ _ ⟨rfl, hissued, rfl⟩
  exact ⟨rfl, rfl, hissued, htakes, fun a ha => lasting_conforms V a t t' hwf hle (hargs a ha)⟩

/-- The type of a parameter. -/
theorem conforms_param (hwf : t.WellFormed) {p : Param} (hp : V.param p) :
    Repeatable t (param p) (Conforms V) := by
  have hissued : t.IssuedData (.param p) := trivial
  exact conforms_intern hwf hissued (by simp) (by simp) fun id t' _ _ hdata => .param hdata hp

/-- The tuple of proper items. -/
theorem conforms_tuple (hwf : t.WellFormed) {es : List (Element TypeId)}
    (hes : ∀ e ∈ es, Conforms V e.item t) : Repeatable t (tuple es) (Conforms V) := by
  refine (repeatable_internElements hwf fun e he => (hes e he).1).bind ?_
  rintro list t₁ hle₁ hwf₁ _ ⟨hissued, rfl⟩
  have hdata : t₁.IssuedData (.tuple list) := hissued
  refine conforms_intern hwf₁ hdata (by simp) (by simp) ?_
  intro id t₂ hle₂ hspans hlookup
  refine .tuple hlookup ?_
  rw [hissued.elementList_eq hle₂]
  intro e he
  have hle := Interner.le_trans hle₁ hle₂
  exact ((hes e he).2 (hspans.of_le hle)).of_le hwf hle

omit [Digest TypeData] in
/-- A list that is neither empty nor a single entry. -/
theorem two_le_length {α : Type} {xs : List α} (hnil : xs ≠ []) (hsingle : ∀ x, xs ≠ [x]) :
    2 ≤ xs.length := by
  rcases xs with _ | ⟨x, _ | ⟨y, rest⟩⟩
  · exact absurd rfl hnil
  · exact absurd rfl (hsingle x)
  · simp

/-- Two or more parts, without an `Any` and without unions, are in normal form. -/
theorem normalMembers_parts {ids : List TypeId}
    (hany : (t.flatten ids).find? TypeId.isAny = none) (htwo : 2 ≤ (t.parts ids).length)
    (hunion : ∀ x ∈ t.flatten ids, ∀ list, t.lookup x ≠ some (.union list)) :
    t.NormalMembers (t.parts ids) where
  two_le := htwo
  ascend := (t.ascend_flatten ids).filter _
  not_any m hm := by simpa using List.find?_eq_none.mp hany m (List.mem_of_mem_filter hm)
  not_never m hm := by simpa using (List.mem_filter.mp hm).2
  not_union m hm := hunion m (List.mem_of_mem_filter hm)

/-- The union of members in normal form. -/
theorem conforms_internUnion (hwf : t.WellFormed) {members : List TypeId}
    (hmembers : ∀ m ∈ members, Conforms V m t) (hnormal : Spans V t → t.NormalMembers members) :
    Repeatable t (internTypes members >>= fun list => intern (.union list)) (Conforms V) := by
  have hissued : ∀ m ∈ members, t.Issued m := fun m hm => (hmembers m hm).1
  refine (repeatable_internTypes hwf hissued).bind ?_
  rintro list t₁ hle₁ hwf₁ _ ⟨hlist, heq⟩
  have hdata : t₁.IssuedData (.union list) := hlist
  refine conforms_intern hwf₁ hdata (by simp) (by simp) ?_
  intro id t₂ hle₂ hspans hlookup
  have hle := Interner.le_trans hle₁ hle₂
  have hspans₀ := hspans.of_le hle
  have hlist₂ : t₂.typeList list = members := by rw [hlist.typeList_eq hle₂, heq]
  refine .union hlookup ?_ ?_
  · rw [hlist₂]
    exact (hnormal hspans₀).of_le hissued hle
  · rw [hlist₂]
    exact fun m hm => ((hmembers m hm).2 hspans₀).of_le hwf hle

/-- The union of proper types. Of no types at all it is `Never`. -/
theorem conforms_union (hwf : t.WellFormed) {ids : List TypeId}
    (hids : ∀ id ∈ ids, Conforms V id t) (hnil : ids = [] → V.leaf .never) :
    Repeatable t (union ids) (Conforms V) := by
  have hissued : ∀ id ∈ ids, t.Issued id := fun id hid => (hids id hid).1
  -- what the types contribute is proper, and no union
  have hmembers : Spans V t → ∀ x ∈ t.flatten ids,
      t.Proper V x ∧ ∀ list, t.lookup x ≠ some (.union list) := by
    intro hspans x hx
    obtain ⟨id, hid, hmember⟩ := mem_flatten.mp hx
    exact ((hids id hid).2 hspans).of_mem_membersOf hmember
  have hconforms : ∀ x ∈ t.flatten ids, Conforms V x t := fun x hx =>
    ⟨issued_of_mem_flatten hwf hissued hx, fun hspans => (hmembers hspans x hx).1⟩
  unfold union
  refine .read ?_ ?_
  · intro t' hle _
    rw [hwf.flatten_eq hissued hle]
  dsimp only
  split
  · -- an `Any` absorbs the others
    rename_i any hany
    exact .pure hwf (hconforms any (List.mem_of_find?_eq_some hany))
  · rename_i hany
    split
    · -- nothing is left to join, for there was nothing but `Never`
      rename_i hparts
      refine .pure hwf ⟨issued_never, fun hspans => ?_⟩
      cases ids with
      | nil => exact .leaf rfl (hnil rfl)
      | cons id rest =>
        obtain ⟨x, hx⟩ := ((hids id List.mem_cons_self).2 hspans).exists_mem_membersOf
        have hflat : x ∈ t.flatten (id :: rest) := mem_flatten.mpr ⟨id, List.mem_cons_self, hx⟩
        have hnever : x = .never := by simpa using List.filter_eq_nil_iff.mp hparts x hflat
        exact hnever ▸ (hmembers hspans x hflat).1
    · -- a single type stands for itself
      rename_i single hsingle
      have hpart : single ∈ t.parts ids := by
        rw [show t.parts ids = [single] from hsingle]
        exact List.mem_singleton_self single
      exact .pure hwf (hconforms single (List.mem_of_mem_filter hpart))
    · -- two or more are kept in normal form
      rename_i hnotNil hnotSingle
      exact conforms_internUnion hwf (fun m hm => hconforms m (List.mem_of_mem_filter hm))
        fun hspans => normalMembers_parts hany (two_le_length hnotNil hnotSingle) fun x hx =>
          (hmembers hspans x hx).2

end Interner

/-! ## Expansion -/

namespace Substitution

open Interner

variable {s : Substitution} {t t' : Interner} {V W : Vocabulary} {f : TypeId → Expanding TypeId}

/-- Expansion turns what is made of `V` into what is made of `W`: a parameter of `V` is bound to
a type made of `W`, or it is not bound and belongs to `W`. -/
structure Carries (s : Substitution) (t : Interner) (V W : Vocabulary) : Prop where
  leaf : ∀ x, V.leaf x → W.leaf x
  takes : ∀ c n, V.takes c n → W.takes c n
  bound : ∀ p id, V.param p → s.get? p.id = some id → t.Proper W id
  free : ∀ p, V.param p → s.get? p.id = none → W.param p

/-- What the parameters are bound to stays proper as the tables grow. -/
theorem Carries.of_le (hs : s.Carries t V W) (hwf : t.WellFormed) (hle : t ≤ t') :
    s.Carries t' V W where
  leaf := hs.leaf
  takes := hs.takes
  bound p id hp hid := (hs.bound p id hp hid).of_le hwf hle
  free := hs.free

/-- Where nothing is bound a type stays as it is. -/
theorem Carries.of_isEmpty (hs : s.Carries t V W) (h : s.isEmpty = true) {id : TypeId}
    (hid : t.Proper V id) : t.Proper W id :=
  hid.mono hs.leaf (fun p hp => hs.free p hp (get?_of_isEmpty h p.id)) hs.takes

/-- Expanding the arguments of an instance one by one. -/
theorem conforms_mapInstance (hwf : t.WellFormed) {i : Instance} (hi : t.IssuedList i.args)
    (htakes : W.takes i.head (t.args i).length)
    (hf : ∀ a ∈ t.args i, ∀ flag t', t ≤ t' → t'.WellFormed →
      Repeatable t' ((f a).run flag) fun r => Conforms W r.1) (flag : Bool) :
    Repeatable t ((mapInstance f i).run flag) fun r t' =>
      r.1.head = i.head ∧ ConformsInstance W r.1 t' := by
  refine (repeatable_mapInstance (P := fun _ b => Conforms W b) (fun _ => lasting_conforms W)
    (fun _ _ _ h => h.1) hwf hi hf flag).mono ?_
  rintro ⟨i', flag'⟩ t' _ _ _ ⟨hhead, hissued, hargs⟩
  dsimp only at hhead hissued hargs ⊢
  refine ⟨hhead, hissued, ?_, ?_⟩
  · rw [hhead, ← hargs.length_eq]
    exact htakes
  · intro a ha
    obtain ⟨_, -, h⟩ := exists_of_mem_right hargs ha
    exact h

/-- Expanding the items of tuple elements one by one. -/
theorem conforms_mapElements (hwf : t.WellFormed) {es : List (Element TypeId)}
    (hf : ∀ e ∈ es, ∀ flag t', t ≤ t' → t'.WellFormed →
      Repeatable t' ((f e.item).run flag) fun r => Conforms W r.1) (flag : Bool) :
    Repeatable t ((mapElements f es).run flag) fun r t' => ∀ e ∈ r.1, Conforms W e.item t' := by
  refine (repeatable_mapElements (P := fun _ b => Conforms W b) (fun _ => lasting_conforms W)
    hwf hf flag).mono ?_
  intro r t' _ _ _ hes e he
  obtain ⟨_, -, h⟩ := exists_of_mem_right hes he
  exact h

section Structures

variable {levels : Nat} {id : TypeId} (hwf : t.WellFormed)
  (hf : ∀ c ∈ t.children id, ∀ flag t', t ≤ t' → t'.WellFormed →
    Repeatable t' ((s.expand levels c).run flag) fun r => Conforms W r.1)

include hwf hf

/-- An instance whose arguments have been expanded to proper types is proper. -/
theorem conforms_expandInst {i : Instance} (hdata : t.lookup id = some (.inst i))
    (htakes : W.takes i.head (t.args i).length) (flag : Bool) :
    Repeatable t ((s.expandOnce levels t id).run flag) fun r => Conforms W r.1 := by
  have hissued : t.IssuedData (.inst i) := hwf.issuedData_of_lookup hdata
  have hargs : ∀ c ∈ t.args i, c ∈ t.children id := by
    rw [children_of_lookup hdata]
    exact fun c hc => hc
  rw [expandOnce_inst hdata, StateT.run_bind]
  refine (conforms_mapInstance hwf hissued htakes
    (fun c hc => hf c (hargs c hc)) flag).bind ?_
  rintro ⟨i', flag'⟩ t₁ hle₁ hwf₁ _ ⟨-, hi'⟩
  dsimp only at hi' ⊢
  split
  · -- the handle is kept
    rename_i heq
    have hdata₁ : t₁.lookup id = some (.inst i') := heq ▸ lookup_of_le hle₁ hdata
    refine .pure hwf₁ ⟨issued_of_lookup hdata₁, fun hspans => ?_⟩
    have hproper := hi'.proper hspans
    exact .inst hdata₁ hproper.takes hproper.args
  · exact (conforms_inst hwf₁ hi').lift flag'

/-- A tuple whose items have been expanded to proper types is proper. -/
theorem conforms_expandTuple {list : ElementListId} (hdata : t.lookup id = some (.tuple list))
    (flag : Bool) :
    Repeatable t ((s.expandOnce levels t id).run flag) fun r => Conforms W r.1 := by
  have hissued : t.IssuedData (.tuple list) := hwf.issuedData_of_lookup hdata
  have hitems : ∀ e ∈ t.elementList list, e.item ∈ t.children id := by
    rw [children_of_lookup hdata]
    exact fun e he => List.mem_map_of_mem he
  rw [expandOnce_tuple hdata, StateT.run_bind]
  refine (conforms_mapElements hwf (fun e he => hf e.item (hitems e he)) flag).bind ?_
  rintro ⟨es, flag'⟩ t₁ hle₁ hwf₁ _ hes
  dsimp only at hes ⊢
  split
  · -- the handle is kept
    rename_i heq
    have hdata₁ := lookup_of_le hle₁ hdata
    refine .pure hwf₁ ⟨issued_of_lookup hdata₁, fun hspans => .tuple hdata₁ ?_⟩
    rw [IssuedElements.elementList_eq hissued hle₁, ← heq]
    exact fun e he => (hes e he).2 hspans
  · exact (conforms_tuple hwf₁ hes).lift flag'

/-- A union whose members have been expanded to proper types is proper: what they are joined to
is in normal form again. -/
theorem conforms_expandUnion {list : TypeListId} (hdata : t.lookup id = some (.union list))
    (hnormal : t.NormalMembers (t.typeList list)) (flag : Bool) :
    Repeatable t ((s.expandOnce levels t id).run flag) fun r => Conforms W r.1 := by
  have hissued : t.IssuedData (.union list) := hwf.issuedData_of_lookup hdata
  -- the members are expanded first, and joined again if one has changed
  have hmembers : ∀ c ∈ t.typeList list, c ∈ t.children id := by
    rw [children_of_lookup hdata]
    exact fun c hc => hc
  rw [expandOnce_union hdata, StateT.run_bind]
  refine (Repeatable.mapM_run (P := fun _ b => Conforms W b) (fun _ => lasting_conforms W) hwf
    (fun c hc => hf c (hmembers c hc)) flag).bind ?_
  rintro ⟨rs, flag'⟩ t₁ hle₁ hwf₁ _ hexpanded
  dsimp only at hexpanded ⊢
  have hrs : ∀ r ∈ rs, Conforms W r t₁ := by
    intro r hr
    obtain ⟨_, -, h⟩ := exists_of_mem_right hexpanded hr
    exact h
  have htwo : 2 ≤ rs.length := hexpanded.length_eq ▸ hnormal.two_le
  split
  · -- the handle is kept
    rename_i heq
    have hdata₁ := lookup_of_le hle₁ hdata
    have hlist : t₁.typeList list = t.typeList list := IssuedList.typeList_eq hissued hle₁
    refine .pure hwf₁ ⟨issued_of_lookup hdata₁, fun hspans => .union hdata₁ ?_ ?_⟩
    · rw [hlist]
      exact hnormal.of_le (fun m hm => hwf.issued_of_mem_typeList hm) hle₁
    · rw [hlist, ← heq]
      exact fun m hm => (hrs m hm).2 hspans
  · refine (conforms_union hwf₁ hrs ?_).lift flag'
    rintro rfl
    exact absurd htwo (by decide)

end Structures

/-- Expanding a proper type. -/
theorem conforms_expand {levels : Nat} (hwf : t.WellFormed) (hs : s.Carries t V W) {id : TypeId}
    (hid : t.Proper V id) (flag : Bool) :
    Repeatable t ((s.expand levels id).run flag) fun r => Conforms W r.1 := by
  induction levels generalizing t id flag with
  | zero =>
    unfold expand
    split
    · rename_i hintrinsic
      have hleaf := hs.leaf id (hid.leaf_of_intrinsic hintrinsic)
      exact .pure hwf (Proper.leaf hintrinsic hleaf).conforms
    · exact .pure hwf ⟨issued_any .fromError, fun hspans => .leaf rfl hspans.error⟩
  | succ levels ih =>
    cases hintrinsic : id.isIntrinsic with
    | true =>
      rw [expand_of_intrinsic hintrinsic]
      have hleaf := hs.leaf id (hid.leaf_of_intrinsic hintrinsic)
      exact .pure hwf (Proper.leaf hintrinsic hleaf).conforms
    | false =>
      have hchild : ∀ c ∈ t.children id, ∀ flag t', t ≤ t' → t'.WellFormed →
          Repeatable t' ((s.expand levels c).run flag) fun r => Conforms W r.1 :=
        fun c hc flag t' hle hwf' =>
          ih hwf' (hs.of_le hwf hle) ((hid.of_mem_children c hc).of_le hwf hle) flag
      rw [expand_succ hintrinsic]
      refine .readThe (fun t' hle _ => expandOnce_eq hwf hid.issued hle) ?_
      cases hid with
      | leaf hid _ =>
        rw [hintrinsic] at hid
        cases hid
      | @param _ p hdata hp =>
        rw [expandOnce_param hdata]
        refine .pure hwf ?_
        -- a bound parameter gives way
        cases hbound : s.get? p.id with
        | none => exact (Proper.param hdata (hs.free p hp hbound)).conforms
        | some value => exact (hs.bound p value hp hbound).conforms
      | inst hdata htakes _ =>
        exact conforms_expandInst hwf hchild hdata (hs.takes _ _ htakes) flag
      | tuple hdata _ => exact conforms_expandTuple hwf hchild hdata flag
      | union hdata hnormal _ => exact conforms_expandUnion hwf hchild hdata hnormal flag

/-- Expanding a proper instance. -/
theorem conforms_applyInstance (hwf : t.WellFormed) (hs : s.Carries t V W) {i : Instance}
    (hi : t.ProperInstance V i) :
    Repeatable t (s.applyInstance i) fun i' t' =>
      i'.head = i.head ∧ ConformsInstance W i' t' := by
  have htakes := hs.takes _ _ hi.takes
  unfold applyInstance
  split
  · rename_i hempty
    have hproper : t.ProperInstance W i :=
      ⟨hi.issued, htakes, fun a ha => hs.of_isEmpty hempty (hi.args a ha)⟩
    exact .pure hwf ⟨rfl, hproper.conforms⟩
  · refine Repeatable.drop (conforms_mapInstance hwf hi.issued htakes ?_ false)
    intro a ha flag t' hle hwf'
    exact conforms_expand hwf' (hs.of_le hwf hle) ((hi.args a ha).of_le hwf hle) flag

/-- Expanding proper tuple elements. -/
theorem conforms_applyElements (hwf : t.WellFormed) (hs : s.Carries t V W)
    {es : List (Element TypeId)} (hes : ∀ e ∈ es, t.Proper V e.item) :
    Repeatable t (s.applyElements es) fun es' t' => ∀ e ∈ es', Conforms W e.item t' := by
  unfold applyElements
  refine Repeatable.drop (conforms_mapElements hwf ?_ false)
  intro e he flag t' hle hwf'
  exact conforms_expand hwf' (hs.of_le hwf hle) ((hes e he).of_le hwf hle) flag

end Substitution

end Supertypes
