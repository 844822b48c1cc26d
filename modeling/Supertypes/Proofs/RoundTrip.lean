import Supertypes.Proofs.DeclaredShapes

/-!
# Reading the text of a type

- `Interner.fixed_inst`, `Interner.fixed_tuple` and `Interner.fixed_union`: building a type that
  is there yields its handle, whatever the order in which the members of a union are given.
- `Registry.spoken`: what the types are made of that expressions in a scope can denote in full.
- `Registry.exists_expr`: a type that is made of that is denoted by an expression, and the text
  of the expression is the text of the type.
- `Hierarchy.ofClasses_round_trip`: the text of a type that an expression denotes denotes the
  type.
-/

namespace Supertypes

/-! ## Lists in step -/

/-- What exists for each member exists as a list. -/
theorem exists_forall₂ {α β : Type} {R : α → β → Prop} {xs : List α} (h : ∀ x ∈ xs, ∃ y, R x y) :
    ∃ ys, List.Forall₂ R xs ys := by
  induction xs with
  | nil => exact ⟨[], .nil⟩
  | cons x xs ih =>
    obtain ⟨y, hy⟩ := h x List.mem_cons_self
    obtain ⟨ys, hys⟩ := ih fun x' hx' => h x' (List.mem_cons_of_mem x hx')
    exact ⟨y :: ys, .cons hy hys⟩

theorem map_eq_map_of_forall₂ {α β γ : Type} {f : α → γ} {g : β → γ} {xs : List α} {ys : List β}
    (h : List.Forall₂ (fun x y => g y = f x) xs ys) : ys.map g = xs.map f := by
  induction h with
  | nil => rfl
  | cons hxy _ ih => rw [List.map_cons, List.map_cons, hxy, ih]

section

variable [Digest TypeData]

namespace Interner

variable {α β ε : Type} {t t' : Interner} {id : TypeId}

/-! ## Actions that succeed -/

/-- The action succeeds with `a`, now and later, and adds nothing. -/
def Yields (t : Interner) (x : ExceptT ε Interning α) (a : α) : Prop :=
  Settled t x.run (.ok a)

namespace Yields

theorem pure (t : Interner) (a : α) : Yields t (Pure.pure a : ExceptT ε Interning α) a :=
  Settled.pure t _

/-- An action that is settled can be run among those that may fail. -/
theorem lift {y : Interning α} {a : α} (hy : Settled t y a) :
    Yields t (ExceptT.lift y : ExceptT ε Interning α) a := by
  show Settled t (Except.ok <$> y) _
  rw [map_eq_pure_bind]
  exact hy.bind (.pure t _)

/-- Two actions that succeed, one after the other. -/
theorem bind {x : ExceptT ε Interning α} {f : α → ExceptT ε Interning β} {a : α} {b : β}
    (hx : Yields t x a) (hf : Yields t (f a) b) : Yields t (x >>= f) b := by
  unfold Yields
  rw [ExceptT.run_bind]
  exact Settled.bind hx hf

/-- Actions that succeed, along a list. -/
theorem mapM {f : α → ExceptT ε Interning β} {xs : List α} {ys : List β}
    (h : List.Forall₂ (fun x y => Yields t (f x) y) xs ys) : Yields t (xs.mapM f) ys := by
  induction h with
  | nil => exact .pure t []
  | cons hx _ ih =>
    rw [List.mapM_cons]
    exact hx.bind (ih.bind (.pure t _))

end Yields

/-! ## Building again what is there -/

/-- Every structure in the table has a handle of its own. -/
def Exact (t : Interner) : Prop :=
  ∀ a, (t.types.get? a).isSome = true → (TypeId.ofAddress a).isIntrinsic = false

/-- No shard is full. -/
def HasRoom (t : Interner) : Prop :=
  ∀ s, (t.types.shard s).length ≤ TypeId.maxSlot

/-- No shard is full in tables with no more structures than a shard has room for. -/
theorem hasRoom_of_size (h : t.size ≤ TypeId.maxSlot) : t.HasRoom := by
  intro s
  have hshard : (t.types.shard s).length ≤ t.size := List.length_filter_le _ _
  omega

/-- Growing tables have no more room than before. -/
theorem HasRoom.of_le (h : t'.HasRoom) (hle : t ≤ t') : t.HasRoom :=
  fun s => Nat.le_trans (Table.shard_grows hle.1 s).length_le (h s)

/-- In a shard that is not full no address runs over the end of the word. -/
theorem HasRoom.exact (h : t.HasRoom) : t.Exact := by
  intro a ha
  obtain ⟨data, hdata⟩ := Option.isSome_iff_exists.mp ha
  obtain ⟨hslot, -⟩ := List.getElem?_eq_some_iff.mp hdata
  have hshard := h a.shard
  exact TypeId.isIntrinsic_ofAddress (by omega)

theorem exact_of_size (h : t.size ≤ TypeId.maxSlot) : t.Exact :=
  (hasRoom_of_size h).exact

section Again

variable (hwf : t.WellFormed)

include hwf

/-- Interning what is stored yields its handle. -/
theorem fixed_intern {data : TypeData} (hdata : t.lookup id = some data) (hnever : data ≠ .never)
    (hany : ∀ reason, data ≠ .any reason) : Fixed t (intern data) id := by
  intro t' hle
  have huser : id.isIntrinsic = false := by
    rw [Bool.eq_false_iff]
    intro hintrinsic
    rcases data_of_intrinsic hintrinsic hdata with heq | ⟨reason, heq⟩
    · exact hnever heq
    · exact hany reason heq
  rw [lookup_of_user huser] at hdata
  have hfind := Table.find?_of_le hle.1 (Table.find?_of_get? hwf.types_nodup hdata)
  rw [intern_run hnever hany]
  simp only [Table.intern, hfind, Option.map_some, Option.getD_some, ofAddress_address huser]

/-- Interning a list that is stored yields its handle. -/
theorem fixed_internTypes {list : TypeListId} (hlist : t.IssuedList list) :
    Fixed t (internTypes (t.typeList list)) list := by
  intro t' hle
  have hintern : t.typeLists.intern (t.typeList list) = (list.position, t.typeLists) :=
    hwf.typeLists_distinct.intern_get hlist
  have hagain : t'.typeLists.intern (t.typeList list) = (list.position, t'.typeLists) := by
    rw [ListTable.intern_again (by rw [hintern]; exact hle.2.1), hintern]
  show ((⟨(t'.typeLists.intern (t.typeList list)).1⟩ : TypeListId),
    { t' with typeLists := (t'.typeLists.intern (t.typeList list)).2 }) = _
  rw [hagain]

/-- So does interning the elements of a tuple that is stored. -/
theorem fixed_internElements {list : ElementListId} (hlist : t.IssuedElements list) :
    Fixed t (internElements (t.elementList list)) list := by
  intro t' hle
  have hintern : t.elementLists.intern (t.elementList list) = (list.position, t.elementLists) :=
    hwf.elementLists_distinct.intern_get hlist
  have hagain : t'.elementLists.intern (t.elementList list) = (list.position, t'.elementLists) := by
    rw [ListTable.intern_again (by rw [hintern]; exact hle.2.2), hintern]
  show ((⟨(t'.elementLists.intern (t.elementList list)).1⟩ : ElementListId),
    { t' with elementLists := (t'.elementLists.intern (t.elementList list)).2 }) = _
  rw [hagain]

theorem fixed_apply {i : Instance} (hi : t.IssuedList i.args) :
    Fixed t (apply i.head (t.args i)) i :=
  (fixed_internTypes hwf hi).bind (.pure t _)

theorem fixed_inst {i : Instance} (hdata : t.lookup id = some (.inst i)) : Fixed t (inst i) id :=
  fixed_intern hwf hdata (by simp) (by simp)

theorem fixed_param {p : Param} (hdata : t.lookup id = some (.param p)) : Fixed t (param p) id :=
  fixed_intern hwf hdata (by simp) (by simp)

theorem fixed_tuple {list : ElementListId} (hdata : t.lookup id = some (.tuple list)) :
    Fixed t (tuple (t.elementList list)) id := by
  have hissued : t.IssuedData (.tuple list) := hwf.issuedData_of_lookup hdata
  exact (fixed_internElements hwf hissued).bind (fixed_intern hwf hdata (by simp) (by simp))

end Again

omit [Digest TypeData] in
/-- Strictly ascending lists of the same handles are equal. -/
theorem eq_of_ascend {xs ys : List TypeId} (hxs : xs.Pairwise fun a b => a.word < b.word)
    (hys : ys.Pairwise fun a b => a.word < b.word) (h : ∀ x, x ∈ xs ↔ x ∈ ys) : xs = ys := by
  have hperm := (List.perm_ext_iff_of_nodup (nodup_of_ascend hxs) (nodup_of_ascend hys)).mpr h
  refine hperm.eq_of_pairwise ?_ hxs hys
  intro a b _ _ hab hba
  exact absurd (UInt32.lt_trans hab hba) (UInt32.lt_irrefl a.word)

/-- Normal members in any order are flattened to themselves. -/
theorem NormalMembers.flatten_eq {members ids : List TypeId} (h : t.NormalMembers members)
    (hids : ids.Perm members) : t.flatten ids = members := by
  refine eq_of_ascend (t.ascend_flatten ids) h.ascend fun x => ?_
  have hself : ∀ m ∈ members, t.membersOf m = [m] := fun m hm =>
    membersOf_of_not_union (h.not_union m hm)
  rw [mem_flatten]
  constructor
  · rintro ⟨m, hm, hx⟩
    have hm' := hids.mem_iff.mp hm
    rw [hself m hm'] at hx
    exact List.mem_singleton.mp hx ▸ hm'
  · intro hx
    refine ⟨x, hids.mem_iff.mpr hx, ?_⟩
    rw [hself x hx]
    exact List.mem_singleton_self x

/-- Joining the members of a union again, in any order. -/
theorem fixed_union (hwf : t.WellFormed) {list : TypeListId} {ids : List TypeId}
    (hdata : t.lookup id = some (.union list)) (hnormal : t.NormalMembers (t.typeList list))
    (hids : ids.Perm (t.typeList list)) : Fixed t (union ids) id := by
  have hissued : t.IssuedData (.union list) := hwf.issuedData_of_lookup hdata
  have hmembers : ∀ m ∈ t.typeList list, t.Issued m := fun m hm => hwf.issued_of_mem_typeList hm
  unfold union
  refine .read (x := ?_) ?_ ?_
  · exact internTypes (t.typeList list) >>= fun list => intern (.union list)
  · intro t' hle
    -- nothing is dropped, for the members are in normal form
    rw [(hnormal.of_le hmembers hle).flatten_eq hids]
    have hany : (t.typeList list).find? TypeId.isAny = none := by
      rw [List.find?_eq_none]
      exact fun m hm => by rw [hnormal.not_any m hm]; simp
    have hkeep : (t.typeList list).filter (· ≠ .never) = t.typeList list := by
      rw [List.filter_eq_self]
      exact fun m hm => by simpa using hnormal.not_never m hm
    dsimp only
    rw [hany]
    dsimp only
    rw [hkeep]
    have htwo := hnormal.two_le
    match hlist : t.typeList list, htwo with
    | a :: b :: rest, _ => rfl
  · exact (fixed_internTypes hwf hissued).bind (fixed_intern hwf hdata (by simp) (by simp))

/-- Of a type whose leaves are restricted further. -/
theorem Proper.restrict {V : Vocabulary} (h : t.Proper V id) (leaf : TypeId → Prop)
    (hleaf : ∀ x, t.Occurs id x → V.leaf x → leaf x) : t.Proper { V with leaf } id := by
  induction h with
  | leaf hid h => exact .leaf hid (hleaf _ .refl h)
  | param hdata hp => exact .param hdata hp
  | inst hdata htakes _ ih =>
    refine .inst hdata htakes fun a ha => ih a ha fun x hx => hleaf x (.head ?_ hx)
    show a ∈ t.children _
    rw [children_of_lookup hdata]
    exact ha
  | tuple hdata _ ih =>
    refine .tuple hdata fun e he => ih e he fun x hx => hleaf x (.head ?_ hx)
    show e.item ∈ t.children _
    rw [children_of_lookup hdata]
    exact List.mem_map_of_mem he
  | union hdata hnormal _ ih =>
    refine .union hdata hnormal fun m hm => ih m hm fun x hx => hleaf x (.head ?_ hx)
    show m ∈ t.children _
    rw [children_of_lookup hdata]
    exact hm

end Interner

/-! ## Types as expressions -/

namespace Registry

open Interner TypeExpr

variable {r : Registry} {scope : Scope} {t : Interner} {id : TypeId}

/-- What the types are made of that expressions in a scope can denote in full. -/
def spoken (r : Registry) (scope : Scope) : Vocabulary where
  leaf x := x = .any .explicit ∧ scope.find "Any" = none ∨ x = .never ∧ scope.find "Never" = none
  param p := Token.IsWord p.name ∧ scope.find p.name = some p
  takes c n := ∃ name, Token.IsWord name ∧ scope.find name = none ∧ r.lookup name = some c ∧
    n = (r.params c).length ∧ (n = 0 → resolvePlain scope name = none)

/-- The same with the `Any`s that are not written. -/
def implied (r : Registry) (scope : Scope) : Vocabulary :=
  { r.spoken scope with
    leaf := fun x => (r.spoken scope).leaf x ∨ x = .any .unannotated ∨ x = .any .fromError }

/-- What an expression means is made of what can be written, and of the two `Any`s that are
implied. -/
theorem speaks_implied (r : Registry) (scope : Scope) :
    r.SpeaksTypes scope (r.implied scope) where
  param name p hword hp := by
    have hname : p.name = name := by simpa using List.find?_some hp
    exact ⟨hname ▸ hword, hname ▸ hp⟩
  explicit hfree := .inl (.inl ⟨rfl, hfree⟩)
  never hfree := .inl (.inr ⟨rfl, hfree⟩)
  unannotated := .inr (.inl rfl)
  takes name _ hword hfree hc hplain := ⟨name, hword, hfree, hc, rfl, hplain⟩

theorem spans_implied (hexact : t.Exact) : Spans (r.implied scope) t where
  error := .inr (.inr rfl)
  overrun a ha hintrinsic := by
    rw [hexact a ha] at hintrinsic
    cases hintrinsic

omit [Digest TypeData] in
theorem isWord_any : Token.IsWord "Any" :=
  ⟨'A', ['n', 'y'], rfl, by decide +kernel, rfl, by decide +kernel,
    List.all_eq_true.mp (by decide +kernel)⟩

omit [Digest TypeData] in
theorem isWord_never : Token.IsWord "Never" :=
  ⟨'N', ['e', 'v', 'e', 'r'], rfl, by decide +kernel, rfl, by decide +kernel,
    List.all_eq_true.mp (by decide +kernel)⟩

/-- The expression denotes the type, and is written as the type is. -/
structure Renders (r : Registry) (scope : Scope) (t : Interner) (text : String) (id : TypeId)
    (e : TypeExpr) : Prop where
  spelled : e.Spelled
  isUnion : e.IsUnion → ∃ list, t.lookup id = some (.union list)
  text_eq : e.text = text
  yields : Yields t (r.resolve scope e) id

/-- Expressions for several types denote these types. -/
theorem yields_resolveList {f : TypeId → String} {ids : List TypeId} {es : List TypeExpr}
    (h : List.Forall₂ (fun id e => r.Renders scope t (f id) id e) ids es) :
    Yields t (r.resolveList scope es) ids := by
  rw [resolveList_eq]
  exact .mapM (h.flip.imp fun _ _ he => he.yields)

/-- The elements of a tuple are resolved to the items that they render. -/
theorem yields_resolveElements {f : TypeId → String} {items : List (Element TypeId)}
    {es : List (Element TypeExpr)}
    (h : List.Forall₂ (fun a e => r.Renders scope t (f a.item) a.item e.item ∧
      e.isRest = a.isRest) items es) :
    Yields t (r.resolveElements scope es) items := by
  rw [resolveElements_eq]
  refine .mapM (h.flip.imp ?_)
  rintro ⟨e, isRest⟩ ⟨a, isRest'⟩ ⟨he, heq⟩
  obtain rfl : isRest = isRest' := heq
  exact he.yields.bind (.pure t _)

section Rendering

variable {f : TypeId → String}

/-- A name that is a type of its own is written as it is. -/
theorem renders_plain {name : String} (hword : Token.IsWord name) {plain : Interning TypeId}
    (hplain : resolvePlain scope name = some plain) (hid : Settled t plain id) :
    r.Renders scope t name id (.name name []) where
  spelled := .name hword (by simp)
  isUnion h := h.elim
  text_eq := by
    rw [TypeExpr.text]
    rfl
  yields := by
    rw [resolve_plain hplain]
    exact .lift hid

/-- A tuple is written as a parenthesised list. -/
theorem renders_tuple (hwf : t.WellFormed) {list : ElementListId}
    (hdata : t.lookup id = some (.tuple list)) {es : List (Element TypeExpr)}
    (hes : List.Forall₂ (fun a e => r.Renders scope t (f a.item) a.item e.item ∧
      e.isRest = a.isRest) (t.elementList list) es) :
    r.Renders scope t (TypePrinter.tupleText ((t.elementList list).map (Element.map f))) id
      (.tuple es) where
  spelled := by
    refine .tuple fun e he => ?_
    obtain ⟨a, -, h⟩ := exists_of_mem_right hes he
    exact h.1.spelled
  isUnion h := h.elim
  text_eq := by
    rw [TypeExpr.text]
    congr 1
    refine map_eq_map_of_forall₂ (hes.imp ?_)
    rintro ⟨a, isRest⟩ ⟨e, isRest'⟩ ⟨h, heq⟩
    obtain rfl : isRest' = isRest := heq
    show (⟨e.text, isRest'⟩ : Element String) = ⟨f a, isRest'⟩
    rw [h.text_eq]
  yields := by
    rw [resolve]
    exact (yields_resolveElements hes).bind (.lift (fixed_tuple hwf hdata).settled)

/-- The members of a union are written as the tables hold them. -/
theorem renders_union (hwf : t.WellFormed) {list : TypeListId}
    (hdata : t.lookup id = some (.union list)) (hnormal : t.NormalMembers (t.typeList list))
    {es : List TypeExpr}
    (hes : List.Forall₂ (fun m e => r.Renders scope t (f m) m e) (t.typeList list) es) :
    r.Renders scope t (" | ".intercalate ((t.typeList list).map f)) id (.union es) where
  spelled := by
    refine .union (hes.length_eq ▸ hnormal.two_le) ?_ ?_
    · -- no member is a union
      intro e he hunion
      obtain ⟨m, hm, h⟩ := exists_of_mem_right hes he
      obtain ⟨inner, hinner⟩ := h.isUnion hunion
      exact hnormal.not_union m hm inner hinner
    · intro e he
      obtain ⟨m, -, h⟩ := exists_of_mem_right hes he
      exact h.spelled
  isUnion _ := ⟨list, hdata⟩
  text_eq := by
    rw [TypeExpr.text]
    congr 1
    exact map_eq_map_of_forall₂ (hes.imp fun _ _ h => h.text_eq)
  yields := by
    rw [resolve]
    exact (yields_resolveList hes).bind (.lift (fixed_union hwf hdata hnormal (.refl _)).settled)

variable {decls : List ClassDecl} (hr : r.Declares decls) {printer : TypePrinter}
  (hview : printer.view = r.view)

include hr hview

omit [Digest TypeData] in
/-- A class that is found by a name is written by that name. -/
theorem className_eq {name : String} {c : ClassId} (hc : r.lookup name = some c) :
    printer.className c = name := by
  obtain ⟨params, hheader⟩ := (hr.names_iff name c).mp hc
  obtain ⟨info, hinfo, heq⟩ := Option.map_eq_some_iff.mp hheader
  unfold TypePrinter.className
  rw [hview]
  show ((r.get? c).map ClassInfo.name).getD _ = name
  rw [hinfo, Option.map_some, Option.getD_some]
  exact (Prod.mk.inj heq).1

/-- An instance is written as its class with its arguments. -/
theorem renders_inst (hwf : t.WellFormed) {i : Instance} (hdata : t.lookup id = some (.inst i))
    (htakes : (r.spoken scope).takes i.head (t.args i).length) {es : List TypeExpr}
    (hes : List.Forall₂ (fun a e => r.Renders scope t (f a) a e) (t.args i) es) :
    ∃ e, r.Renders scope t (printer.applied i.head ((t.args i).map f)) id e := by
  obtain ⟨name, hword, hfree, hc, hcount, hplain⟩ := htakes
  have hissued : t.IssuedData (.inst i) := hwf.issuedData_of_lookup hdata
  refine ⟨.name name es, .name hword ?_, fun h => h.elim, ?_, ?_⟩
  · intro e he
    obtain ⟨a, -, h⟩ := exists_of_mem_right hes he
    exact h.spelled
  · have htexts : es.map TypeExpr.text = (t.args i).map f :=
      map_eq_map_of_forall₂ (hes.imp fun _ _ h => h.text_eq)
    rw [TypeExpr.text]
    unfold TypePrinter.applied
    rw [className_eq hr hview hc, ← htexts, List.isEmpty_map]
  · have happlied : es = [] → resolvePlain scope name = none := by
      rintro rfl
      exact hplain hes.length_eq
    rw [resolve_applied happlied, resolveApplied_of_class hfree hc, ← hes.length_eq, ← hcount,
      if_neg (by omega), if_neg (by simp)]
    exact ((yields_resolveList hes).bind (.lift (fixed_apply hwf hissued).settled)).bind
      (.lift (fixed_inst hwf hdata).settled)

/-- A type that can be denoted in full is denoted by an expression that is written as the type
is. -/
theorem exists_expr (hwf : t.WellFormed) (htypes : printer.types = t)
    (hreasons : printer.reasons = false) {rank : TypeId → Nat}
    (hrank : ∀ id, ∀ c ∈ t.children id, rank c < rank id) (hid : t.Proper (r.spoken scope) id)
    {depth : Nat} (hdepth : rank id < depth) :
    ∃ e, r.Renders scope t (printer.typeText (fun texts => texts) depth id) id e := by
  induction hid generalizing depth with
  | @leaf id hid hleaf =>
    obtain ⟨depth, rfl⟩ := Nat.exists_eq_add_of_lt hdepth
    -- `Any` or `Never`, unless a parameter in scope has the name
    rcases hleaf with ⟨rfl, hfree⟩ | ⟨rfl, hfree⟩
    · unfold TypePrinter.typeText TypePrinter.anyText
      rw [hreasons]
      exact ⟨_, renders_plain isWord_any (resolvePlain_any hfree) (.pure t _)⟩
    · unfold TypePrinter.typeText
      exact ⟨_, renders_plain isWord_never (resolvePlain_never hfree) (.pure t _)⟩
  | @param id p hdata hp =>
    obtain ⟨depth, rfl⟩ := Nat.exists_eq_add_of_lt hdepth
    unfold TypePrinter.typeText
    rw [htypes, hdata]
    exact ⟨_, renders_plain hp.1 (resolvePlain_of_find hp.2) (fixed_param hwf hdata).settled⟩
  | @inst id i hdata htakes _ ih =>
    -- one level of the text for each level of the type
    obtain ⟨depth, rfl⟩ := Nat.exists_eq_succ_of_ne_zero (Nat.ne_zero_of_lt hdepth)
    obtain ⟨es, hes⟩ := exists_forall₂ fun a (ha : a ∈ t.args i) => by
      have hchild := hrank id a (by rw [children_of_lookup hdata]; exact ha)
      exact ih a ha (Nat.lt_of_lt_of_le hchild (Nat.le_of_lt_succ hdepth))
    unfold TypePrinter.typeText
    rw [htypes, hdata]
    exact renders_inst hr hview hwf hdata htakes hes
  | @tuple id list hdata _ ih =>
    obtain ⟨depth, rfl⟩ := Nat.exists_eq_succ_of_ne_zero (Nat.ne_zero_of_lt hdepth)
    obtain ⟨es, hes⟩ := exists_forall₂ (R := fun (a : Element TypeId) (e : Element TypeExpr) =>
      r.Renders scope t (printer.typeText (fun texts => texts) depth a.item) a.item e.item ∧
        e.isRest = a.isRest)
      fun a (ha : a ∈ t.elementList list) => by
        have hchild := hrank id a.item (by
          rw [children_of_lookup hdata]
          exact List.mem_map_of_mem ha)
        obtain ⟨e, he⟩ := ih a ha (Nat.lt_of_lt_of_le hchild (Nat.le_of_lt_succ hdepth))
        exact ⟨⟨e, a.isRest⟩, he, rfl⟩
    unfold TypePrinter.typeText
    rw [htypes, hdata]
    exact ⟨.tuple es, renders_tuple hwf hdata hes⟩
  | @union id list hdata hnormal _ ih =>
    obtain ⟨depth, rfl⟩ := Nat.exists_eq_succ_of_ne_zero (Nat.ne_zero_of_lt hdepth)
    unfold TypePrinter.typeText
    rw [htypes, hdata]
    obtain ⟨es, hes⟩ := exists_forall₂ fun m (hm : m ∈ t.typeList list) => by
      have hchild := hrank id m (by rw [children_of_lookup hdata]; exact hm)
      exact ih m hm (Nat.lt_of_lt_of_le hchild (Nat.le_of_lt_succ hdepth))
    exact ⟨.union es, renders_union hwf hdata hnormal hes⟩

/-- The text of a type that an expression denotes denotes the type, unless there is an `Any` in
it that is not written. -/
theorem resolving_text {t₀ : Interner} (hwf : t₀.WellFormed) {source : String}
    (hrun : (resolving (r.resolve scope) source).run.run t₀ = (.ok id, t)) (hexact : t.Exact)
    (hunannotated : ¬ t.Occurs id (.any .unannotated)) (herror : ¬ t.Occurs id (.any .fromError))
    (htypes : printer.types = t) (hreasons : printer.reasons = false) :
    (resolving (r.resolve scope) (printer.text id)).run.run t = (.ok id, t) := by
  -- the type is made of what can be written and of the two `Any`s that are implied
  have hattempt := attempt_resolving hwf source fun e _ he =>
    attempt_resolve hwf (speaks_implied r scope) he
  have hwf' := hattempt.wellFormed
  rw [hrun] at hwf'
  have hproper := (hattempt.of_ok hrun).2.2 (spans_implied hexact)
  -- neither of the two occurs in it
  have hspoken : t.Proper (r.spoken scope) id := by
    refine hproper.restrict (r.spoken scope).leaf ?_
    rintro x hx (hleaf | rfl | rfl)
    · exact hleaf
    · exact absurd hx hunannotated
    · exact absurd hx herror
  -- and its text goes as deep as it does
  obtain ⟨rank, hrank⟩ := hwf'.ranked
  have hdepth : rank id < printer.depth := by
    unfold TypePrinter.depth
    rw [htypes]
    exact Nat.lt_succ_of_le (hrank id).1
  obtain ⟨e, he⟩ := exists_expr hr hview hwf' htypes hreasons (fun id => (hrank id).2) hspoken
    hdepth
  have hparse : TypeExpr.parse (printer.text id) = .ok e := by
    rw [TypePrinter.text, ← he.text_eq]
    exact parse_text he.spelled
  unfold resolving
  rw [hparse]
  exact he.yields t t.le_refl hwf'

end Rendering

end Registry

end

/-! ## Hierarchies of declarations -/

namespace Hierarchy

open Interner

/-- In a hierarchy that declarations make, whatever has been interned since: if a text denotes a
type in a scope of type parameters, then the text of the type denotes the type itself, unless
there is an `Any` in it that is not written. The tables must be exact: none of their structures
has a handle that reads as an intrinsic type. -/
theorem ofClasses_round_trip [Digest TypeData] {decls : List ClassDecl} {h : Hierarchy}
    (hok : ofClasses decls = .ok h) {t₀ t : Interner} (hwf : t₀.WellFormed) (scope : Scope)
    {source : String} {id : TypeId}
    (hrun : (Registry.resolving (h.classes.resolve scope) source).run.run t₀ = (.ok id, t))
    (hexact : t.Exact) (hunannotated : ¬ t.Occurs id (.any .unannotated))
    (herror : ¬ t.Occurs id (.any .fromError)) :
    (Registry.resolving (h.classes.resolve scope)
      (TypePrinter.text { types := t, view := h.classes.view } id)).run.run t = (.ok id, t) := by
  obtain ⟨extra, hb⟩ := ofClasses_ok hok
  exact Registry.resolving_text hb.declares rfl hwf hrun hexact hunannotated herror rfl rfl

theorem couple_round_trip : ∃ h id t, ofClasses pairDecls = .ok h ∧
    (Registry.resolving (h.classes.resolve [⟨⟨7⟩, "T"⟩]) "(tuple[T | Couple], *Never)").run.run
      h.types = (.ok id, t) ∧
    (Registry.resolving (h.classes.resolve [⟨⟨7⟩, "T"⟩])
      (TypePrinter.text { types := t, view := h.classes.view } id)).run.run t = (.ok id, t) := by
  let reading := fun h : Hierarchy => (Registry.resolving (h.classes.resolve [⟨⟨7⟩, "T"⟩])
    "(tuple[T | Couple], *Never)").run.run h.types
  let check := fun (id : TypeId) (t : Interner) => t.size ≤ TypeId.maxSlot ∧
    TypeId.any .unannotated ∉ t.walk id ∧ TypeId.any .fromError ∉ t.walk id
  have hrun : ((ofClasses pairDecls).toOption.bind fun h =>
      (reading h).1.toOption.map fun id => decide (check id (reading h).2)) = some true := by
    decide +kernel
  obtain ⟨h, hok, hrun⟩ := Option.bind_eq_some_iff.mp hrun
  obtain ⟨id, hid, hcheck⟩ := Option.map_eq_some_iff.mp hrun
  obtain ⟨hsize, hunannotated, herror⟩ : check id (reading h).2 := of_decide_eq_true hcheck
  have hread : reading h = (.ok id, (reading h).2) := run_eq_of_toOption hid
  obtain ⟨extra, hb⟩ := ofClasses_ok (ok_of_toOption hok)
  refine ⟨h, id, (reading h).2, ok_of_toOption hok, hread, ?_⟩
  refine ofClasses_round_trip (ok_of_toOption hok) hb.wellFormed [⟨⟨7⟩, "T"⟩] hread
    (exact_of_size hsize) ?_ ?_
  · exact fun hoccurs => hunannotated (mem_walk_iff.mpr ⟨hoccurs, rfl⟩)
  · exact fun hoccurs => herror (mem_walk_iff.mpr ⟨hoccurs, rfl⟩)

end Hierarchy

end Supertypes
