import Supertypes.Proofs.Reachable
import Supertypes.Proofs.Unions

/-!
# Tables made by constructor calls

Programs that build types by calls only. `Interner.intern` alone would also store unions that are
not in normal form; no call does.

- `Interner.Regular`: the unions in the tables are in normal form. `Interner.Regular.build` says
  that calls keep this, and `Interner.Regular.proper` what it says of types.
- `Interner.Reached`: the tables that calls on issued handles can reach. They are regular.
- `Hierarchy.Constructed`: the hierarchies of programs that build types by calls and edit them.
  `Hierarchy.Constructed.sound_reached` is the invariant.
-/

namespace Supertypes

namespace Interner

variable {t t' : Interner}

/-! ## Regular tables -/

section

variable [Digest TypeData]

/-- A structure as calls make it: no intrinsic one, and if a union, one in normal form. -/
def RegularData (t : Interner) : TypeData → Prop
  | .never | .any _ => False
  | .inst _ | .param _ | .tuple _ => True
  | .union list => t.NormalMembers (t.typeList list)

/-- All structures in the table are as calls make them. -/
def Regular (t : Interner) : Prop :=
  ∀ data ∈ t.types.entries, t.RegularData data

/-- A regular structure stays regular as the tables grow. -/
theorem WellFormed.regularData_of_le (hwf : t.WellFormed) (hle : t ≤ t') {data : TypeData}
    (hissued : t.IssuedData data) (h : t.RegularData data) : t'.RegularData data := by
  cases data with
  | never => exact h
  | any reason => exact h
  | inst i => trivial
  | param p => trivial
  | tuple list => trivial
  | union list =>
    have hlist : t'.typeList list = t.typeList list := IssuedList.typeList_eq hissued hle
    have hnormal : t.NormalMembers (t.typeList list) := h
    show t'.NormalMembers (t'.typeList list)
    rw [hlist]
    exact hnormal.of_le (fun m hm => hwf.issued_of_mem_typeList hm) hle

namespace Regular

theorem empty : Regular {} :=
  fun _ hdata => absurd hdata List.not_mem_nil

/-- Tables stay regular if the structures that are added are. -/
theorem of_additions (hreg : t.Regular) (hwf : t.WellFormed) (hle : t ≤ t')
    (hnew : ∀ data ∈ t'.types.entries, data ∈ t.types.entries ∨
      t.IssuedData data ∧ t.RegularData data) : t'.Regular := by
  intro data hdata
  rcases hnew data hdata with hold | ⟨hissued, hregular⟩
  · exact hwf.regularData_of_le hle (hwf.data_issued data hold) (hreg data hold)
  · exact hwf.regularData_of_le hle hissued hregular

/-- Every issued type has its unions in normal form. -/
theorem proper (hreg : t.Regular) (hwf : t.WellFormed) {id : TypeId} (hid : t.Issued id) :
    t.Proper .anything id := by
  obtain ⟨rank, hrank⟩ := hwf.ranked
  induction hr : rank id using Nat.strong_induction_on generalizing id with
  | h n ih =>
    have hchild : ∀ c ∈ t.children id, t.Proper .anything c := fun c hc =>
      ih (rank c) (hr ▸ (hrank id).2 c hc) (hwf.issued_of_mem_children hc) rfl
    cases hintrinsic : id.isIntrinsic with
    | true => exact .leaf hintrinsic trivial
    | false =>
      have hsome : (t.lookup id).isSome = true := by simpa [Issued, hintrinsic] using hid
      obtain ⟨data, hdata⟩ := Option.isSome_iff_exists.mp hsome
      have hregular : t.RegularData data := by
        rw [lookup_of_user hintrinsic] at hdata
        exact hreg data (Table.mem_of_get? hdata)
      rw [children_of_lookup hdata] at hchild
      cases data with
      | never => exact hregular.elim
      | any reason => exact hregular.elim
      | inst i => exact .inst hdata trivial hchild
      | param p => exact .param hdata trivial
      | tuple list => exact .tuple hdata fun e he => hchild e.item (List.mem_map_of_mem he)
      | union list => exact .union hdata hregular hchild

/-- The arguments of an instance are proper. -/
theorem proper_args (hreg : t.Regular) (hwf : t.WellFormed) {i : Instance}
    (hi : t.IssuedList i.args) : t.ProperInstance .anything i :=
  ⟨hi, trivial, fun _ ha => hreg.proper hwf (hwf.issued_of_mem_typeList ha)⟩

/-! ## Calls -/

section Building

variable (hreg : t.Regular) (hwf : t.WellFormed)

include hreg hwf

/-- Interning a list keeps the tables regular. -/
theorem internTypes {ids : List TypeId} (hids : ∀ id ∈ ids, t.Issued id) :
    Repeatable t (internTypes ids) fun list t' =>
      t'.IssuedList list ∧ t'.typeList list = ids ∧ t'.Regular := by
  refine (repeatable_internTypes hwf hids).run_eq.mono ?_
  rintro list t' hle _ _ ⟨⟨hissued, hlist⟩, hrun⟩
  obtain ⟨-, rfl⟩ := Prod.mk.inj hrun
  exact ⟨hissued, hlist, hreg.of_additions hwf hle fun _ => .inl⟩

/-- Interning the elements of a tuple keeps the tables regular. -/
theorem internElements {es : List (Element TypeId)} (hes : ∀ e ∈ es, t.Issued e.item) :
    Repeatable t (internElements es) fun list t' => t'.IssuedElements list ∧ t'.Regular := by
  refine (repeatable_internElements hwf hes).run_eq.mono ?_
  rintro list t' hle _ _ ⟨⟨hissued, -⟩, hrun⟩
  obtain ⟨-, rfl⟩ := Prod.mk.inj hrun
  exact ⟨hissued, hreg.of_additions hwf hle fun _ => .inl⟩

/-- Interning a regular structure keeps the tables regular. -/
theorem intern {data : TypeData} (hissued : t.IssuedData data) (hdata : t.RegularData data) :
    Repeatable t (intern data) fun id t' => t'.Issued id ∧ t'.Regular := by
  have hnever : data ≠ .never := by
    rintro rfl
    exact hdata
  have hany : ∀ reason, data ≠ .any reason := by
    rintro reason rfl
    exact hdata
  refine (repeatable_intern hwf hissued).run_eq.mono ?_
  rintro id t' hle _ _ ⟨⟨hid, -⟩, hrun⟩
  refine ⟨hid, hreg.of_additions hwf hle fun d hd => ?_⟩
  rw [intern_run hnever hany] at hrun
  obtain ⟨-, rfl⟩ := Prod.mk.inj hrun
  rcases Table.mem_entries_intern hd with hold | rfl
  · exact .inl hold
  · exact .inr ⟨hissued, hdata⟩

/-- Applying a class keeps the tables regular. -/
theorem apply (head : ClassId) {args : List TypeId} (hargs : ∀ a ∈ args, t.Issued a) :
    Repeatable t (apply head args) fun i t' => t'.IssuedList i.args ∧ t'.Regular := by
  refine (hreg.internTypes hwf hargs).bind ?_
  rintro list t' _ hwf' _ ⟨hissued, -, hreg'⟩
  exact .pure hwf' ⟨hissued, hreg'⟩

/-- Joining types keeps the tables regular, for the members that are stored are in normal
form. -/
theorem union {ids : List TypeId} (hids : ∀ id ∈ ids, t.Issued id) :
    Repeatable t (union ids) fun id t' => t'.Issued id ∧ t'.Regular := by
  -- what is joined has been issued, and no union is left among it
  have hflat : ∀ m ∈ t.flatten ids, t.Issued m := fun m hm => issued_of_mem_flatten hwf hids hm
  have hunion : ∀ m ∈ t.flatten ids, ∀ list, t.lookup m ≠ some (.union list) := by
    intro m hm
    obtain ⟨id, hid, hm⟩ := mem_flatten.mp hm
    exact ((hreg.proper hwf (hids id hid)).of_mem_membersOf hm).2
  unfold Interner.union
  refine .read ?_ ?_
  · intro t' hle _
    rw [hwf.flatten_eq hids hle]
  dsimp only
  split
  · rename_i any hany
    exact .pure hwf ⟨hflat any (List.mem_of_find?_eq_some hany), hreg⟩
  · rename_i hany
    split
    · exact .pure hwf ⟨issued_never, hreg⟩
    · rename_i single hsingle
      have hpart : single ∈ t.parts ids := by
        rw [show t.parts ids = [single] from hsingle]
        exact List.mem_singleton_self single
      exact .pure hwf ⟨hflat single (List.mem_of_mem_filter hpart), hreg⟩
    · -- two or more members are in normal form when they are stored
      rename_i hnotNil hnotSingle
      have hnormal := normalMembers_parts hany (two_le_length hnotNil hnotSingle) hunion
      have hparts : ∀ m ∈ t.parts ids, t.Issued m := fun m hm =>
        hflat m (List.mem_of_mem_filter hm)
      refine (hreg.internTypes hwf hparts).bind ?_
      rintro list t₁ hle₁ hwf₁ _ ⟨hissued, hlist, hreg₁⟩
      have hdata : t₁.RegularData (.union list) := by
        show t₁.NormalMembers (t₁.typeList list)
        rw [hlist]
        exact hnormal.of_le hparts hle₁
      exact hreg₁.intern hwf₁ hissued hdata

/-- Calls keep the tables regular. -/
theorem build {c : Call} (hc : ∀ x ∈ c.operands, t.Issued x) :
    Repeatable t c.build fun id t' => t'.Issued id ∧ t'.Regular := by
  cases c with
  | any reason => exact .pure hwf ⟨issued_any reason, hreg⟩
  | param p =>
    have hissued : t.IssuedData (.param p) := trivial
    exact hreg.intern hwf hissued trivial
  | inst head args =>
    refine (hreg.apply hwf head hc).bind ?_
    rintro i t' _ hwf' _ ⟨hi, hreg'⟩
    have hissued : t'.IssuedData (.inst i) := hi
    exact hreg'.intern hwf' hissued trivial
  | tuple elements =>
    refine (hreg.internElements hwf fun e he => hc _ (List.mem_map_of_mem he)).bind ?_
    rintro list t' _ hwf' _ ⟨hlist, hreg'⟩
    have hissued : t'.IssuedData (.tuple list) := hlist
    exact hreg'.intern hwf' hissued trivial
  | union members => exact hreg.union hwf hc

end Building

end Regular

/-! ## Tables that calls can reach -/

/-- The tables of programs that build types by calls, on handles that have been issued. -/
inductive Reached : Interner → Prop
  | empty : Reached {}
  | build {t : Interner} (h : Reached t) (c : Call) (hc : ∀ x ∈ c.operands, t.Issued x) :
    Reached (c.build.run t).2
  | apply {t : Interner} (h : Reached t) (head : ClassId) (args : List TypeId)
    (hargs : ∀ a ∈ args, t.Issued a) : Reached ((apply head args).run t).2

/-- Tables that calls lead to are well-formed and regular. -/
theorem Reached.wellFormed_regular (h : Reached t) : t.WellFormed ∧ t.Regular := by
  induction h with
  | empty => exact ⟨.empty, .empty⟩
  | build _ c hc ih =>
    have hbuild := ih.2.build ih.1 hc
    exact ⟨hbuild.wellFormed, hbuild.post.2⟩
  | apply _ head args hargs ih =>
    have happly := ih.2.apply ih.1 head hargs
    exact ⟨happly.wellFormed, happly.post.2⟩

/-- The tuple class over joined items is built by calls. -/
theorem Reached.tupleFallback (ht : Reached t) (tuple : ClassId) {es : List (Element TypeId)}
    (hes : ∀ e ∈ es, t.Issued e.item) : Reached ((tupleFallback tuple es).run t).2 := by
  have hitems : ∀ id ∈ es.map Element.item, t.Issued id := List.forall_mem_map.mpr hes
  have hjoined : Reached ((Interner.union (es.map Element.item)).run t).2 :=
    ht.build (.union (es.map Element.item)) hitems
  obtain ⟨hwf, hreg⟩ := ht.wellFormed_regular
  refine hjoined.apply tuple [((Interner.union (es.map Element.item)).run t).1] fun id hid => ?_
  rw [List.mem_singleton.mp hid]
  exact (hreg.union hwf hitems).post.1

end

/-- The parameters `T` and `U`, a class, and the union `T | U`. -/
def paramsJoined : Interner :=
  let types := ((Call.param ⟨⟨2⟩, "T"⟩).build.run {}).2
  let types := ((Call.param ⟨⟨3⟩, "U"⟩).build.run types).2
  let types := ((Call.inst ⟨5⟩ []).build.run types).2
  ((Call.union [⟨42⟩, ⟨46⟩]).build.run types).2

theorem reached_paramsJoined : Reached paramsJoined := by
  refine .build (.build (.build (.build .empty (.param ⟨⟨2⟩, "T"⟩) ?_) (.param ⟨⟨3⟩, "U"⟩) ?_)
    (.inst ⟨5⟩ []) ?_) (.union [⟨42⟩, ⟨46⟩]) ?_
  · decide
  · decide
  · decide
  · decide +kernel

end Interner

/-! ## Programs -/

variable [Digest TypeData]

namespace Hierarchy

open Interner

variable {h h' : Hierarchy}

/-- One step of a program that builds types by calls and edits a hierarchy. The handles in use
are those of its own tables. -/
inductive Construction (h : Hierarchy) : Hierarchy → Prop
  | build (c : Call) (hc : ∀ x ∈ c.operands, h.types.Issued x) :
    Construction h { h with types := (c.build.run h.types).2 }
  | apply (head : ClassId) (args : List TypeId) (hargs : ∀ a ∈ args, h.types.Issued a) :
    Construction h { h with types := ((Interner.apply head args).run h.types).2 }
  | freshParam (name : String) : Construction h ((Hierarchy.freshParam name).run h).2
  | register (name : String) (params : List Param) (flags : ClassFlags) :
    Construction h ((Hierarchy.register name params flags).run.run h).2
  | addBase (c : ClassId) (base : Instance) (hbase : h.types.IssuedList base.args) :
    Construction h ((Hierarchy.addBase c base).run.run h).2
  | setTupleShape (c : ClassId) (elements : List (Element TypeId))
    (hitems : ∀ e ∈ elements, h.types.Issued e.item) :
    Construction h ((Hierarchy.setTupleShape c elements).run.run h).2

/-- The hierarchies of the programs that start from the built-in classes. -/
inductive Constructed : Hierarchy → Prop
  | initial : Constructed {}
  | next {h h' : Hierarchy} (hc : Constructed h) (hstep : Construction h h') : Constructed h'

/-- What one step keeps. -/
theorem Construction.sound_reached (hs : h.Sound) (ht : h.types.Reached)
    (hstep : Construction h h') : h'.Sound ∧ h'.types.Reached := by
  obtain ⟨hwf, hreg⟩ := ht.wellFormed_regular
  cases hstep with
  | build c hc =>
    have hbuild := hreg.build hwf hc
    exact ⟨hs.intern hbuild.le hbuild.wellFormed, ht.build c hc⟩
  | apply head args hargs =>
    have happly := hreg.apply hwf head hargs
    exact ⟨hs.intern happly.le happly.wellFormed, ht.apply head args hargs⟩
  -- the other calls add classes or edges, and the types are as they were or hold the joined
  -- tuple
  | freshParam name => exact ⟨((Change.freshParam name).extends_sound hs).2, ht⟩
  | register name params flags =>
    refine ⟨((Change.register name params flags).extends_sound hs).2, ?_⟩
    rcases register_cases h name params flags with ⟨p, owner, -, hrun⟩ | ⟨-, hrun⟩
    · rwa [hrun]
    · rwa [hrun]
  | addBase c base hbase =>
    refine ⟨((Change.addBase c base hbase).extends_sound hs).2, ?_⟩
    rcases addBase_cases h c base with ⟨e, hrun⟩ | ⟨-, hrun⟩
    · rwa [hrun]
    · rwa [hrun]
  | setTupleShape c elements hitems =>
    refine ⟨((Change.setTupleShape c elements hitems).extends_sound hs).2, ?_⟩
    rcases setTupleShape_cases h c elements with ⟨-, hrun⟩ | ⟨-, -, hrun⟩ | ⟨-, -, hrun⟩ |
      ⟨-, -, -, e, hrun⟩
    · rwa [hrun]
    · rwa [hrun]
    · rw [hrun]
      exact ht.tupleFallback .tuple hitems
    · rw [hrun]
      exact ht.tupleFallback .tuple hitems

/-- A constructed hierarchy is sound, and its tables are reached by calls. -/
theorem Constructed.sound_reached (hc : Constructed h) : h.Sound ∧ h.types.Reached := by
  induction hc with
  | initial => exact ⟨.initial, .empty⟩
  | next _ hstep ih => exact hstep.sound_reached ih.1 ih.2

theorem Constructed.sound_regular (hc : Constructed h) : h.Sound ∧ h.types.Regular := by
  obtain ⟨hs, ht⟩ := hc.sound_reached
  exact ⟨hs, ht.wellFormed_regular.2⟩

end Hierarchy

end Supertypes
