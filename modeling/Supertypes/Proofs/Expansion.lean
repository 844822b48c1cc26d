import Supertypes.Proofs.Mentions
import Supertypes.Types.Substitution

/-!
# What expansion does

- `Substitution.get?_ofArgs_isSome` and `Substitution.mem_of_get?_ofArgs`: the environment of an
  instance binds the parameters of its class to its arguments.
- `Substitution.Leaves`: a type parameter that may be left in a type after expanding it.
- `Substitution.repeatable_expand`: expanding an issued type is repeatable and leaves no other
  parameters. `Substitution.repeatable_applyInstance` and `Substitution.repeatable_applyElements`
  say the same of instances and of tuples.
-/

namespace Supertypes.Substitution

open Interner

variable {s : Substitution}

/-! ## Bindings -/

/-- Binding a parameter changes nothing for the others. -/
theorem get?_insert (s : Substitution) (p : ParamId) (id : TypeId) (q : ParamId) :
    (s.insert p id).get? q = if q = p then some id else s.get? q := by
  obtain ⟨bindings⟩ := s
  unfold insert get?
  dsimp only
  split
  · rename_i hbound
    -- replacing a binding in its place keeps the parameters where they are
    have hkey : ((fun binding : ParamId × TypeId => decide (binding.1 = q)) ∘
        fun binding => if binding.1 = p then (p, id) else binding) =
        fun binding => decide (binding.1 = q) := by
      funext binding
      by_cases h : binding.1 = p <;> simp [h]
    rw [List.find?_map, hkey]
    by_cases hq : q = p
    · subst hq
      obtain ⟨binding, hfind⟩ := Option.isSome_iff_exists.mp
        (List.find?_isSome.mpr (List.any_eq_true.mp hbound))
      have heq : binding.1 = q := by simpa using List.find?_some hfind
      simp [hfind, heq]
    · rw [if_neg hq, Option.map_map]
      refine Option.map_congr fun binding hbinding => ?_
      have heq : binding.1 = q := by simpa using List.find?_some hbinding
      rw [Function.comp_apply, if_neg (heq ▸ hq)]
  · rename_i hnew
    have hnone : bindings.find? (·.1 = p) = none := by
      rw [List.find?_eq_none]
      exact fun binding hmem h => hnew (List.any_eq_true.mpr ⟨binding, hmem, h⟩)
    rw [List.find?_append]
    by_cases hq : q = p
    · subst hq
      simp [hnone]
    · simp [hq, Ne.symm hq]

/-- The last binding of a parameter counts. -/
theorem get?_ofList (bindings : List (ParamId × TypeId)) (p : ParamId) :
    (ofList bindings).get? p = (bindings.reverse.find? (·.1 = p)).map Prod.snd := by
  unfold ofList
  induction bindings using List.reverseRecOn with
  | nil => rfl
  | append_singleton bindings binding ih =>
    rw [List.foldl_append, List.foldl_cons, List.foldl_nil, get?_insert, ih,
      List.reverse_append, List.reverse_singleton, List.singleton_append, List.find?_cons]
    -- the binding appended last is the first in reverse
    by_cases h : binding.1 = p
    · simp [h]
    · simp [h, Ne.symm h]

/-- A parameter is bound to an argument. -/
theorem mem_of_get?_ofArgs {params : List Param} {args : List TypeId} {p : ParamId} {id : TypeId}
    (h : (ofArgs params args).get? p = some id) : id ∈ args := by
  unfold ofArgs at h
  rw [get?_ofList] at h
  obtain ⟨binding, hbinding, rfl⟩ := Option.map_eq_some_iff.mp h
  have hmem := List.mem_reverse.mp (List.mem_of_find?_eq_some hbinding)
  exact (List.of_mem_zip hmem).2

/-- Every parameter is bound if there are arguments enough. -/
theorem get?_ofArgs_isSome {params : List Param} {args : List TypeId}
    (hlen : params.length ≤ args.length) {p : Param} (hp : p ∈ params) :
    ((ofArgs params args).get? p.id).isSome = true := by
  obtain ⟨n, hn, rfl⟩ := List.mem_iff_getElem.mp hp
  unfold ofArgs
  rw [get?_ofList, Option.isSome_map, List.find?_isSome]
  refine ⟨(params[n].id, args[n]), ?_, by simp⟩
  rw [List.mem_reverse]
  refine List.mem_iff_getElem.mpr ⟨n, by simp; omega, ?_⟩
  simp

theorem get?_of_isEmpty (h : s.isEmpty = true) (p : ParamId) : s.get? p = none := by
  obtain ⟨bindings⟩ := s
  obtain rfl := List.isEmpty_iff.mp h
  rfl

/-! ## What may be left -/

variable [Digest TypeData] {t t' : Interner}

/-- All that is bound to a parameter has been issued. -/
def Issued (s : Substitution) (t : Interner) : Prop :=
  ∀ p id, s.get? p = some id → t.Issued id

theorem Issued.of_le (hs : s.Issued t) (h : t ≤ t') : s.Issued t' :=
  fun p id hid => (hs p id hid).of_le h

theorem issued_ofArgs {params : List Param} {args : List TypeId} (h : ∀ id ∈ args, t.Issued id) :
    (ofArgs params args).Issued t :=
  fun _ id hid => h id (mem_of_get?_ofArgs hid)

/-- Expanding `id` may leave `p` in it: a parameter that is not bound, or one that is mentioned
in the place of a parameter that is. -/
def Leaves (s : Substitution) (t : Interner) (id : TypeId) (p : Param) : Prop :=
  ∃ q, t.Mentions id q ∧ (s.get? q.id).elim (p = q) (t.Mentions · p)

theorem Leaves.of_child {id c : TypeId} {p : Param} (h : s.Leaves t c p)
    (hc : c ∈ t.children id) : s.Leaves t id p := by
  obtain ⟨q, hq, hp⟩ := h
  exact ⟨q, mentions_iff.mpr (.inr ⟨c, hc, hq⟩), hp⟩

theorem Leaves.of_le (hwf : t.WellFormed) (hs : s.Issued t) (hle : t ≤ t') {id : TypeId}
    (hid : t.Issued id) {p : Param} (h : s.Leaves t' id p) : s.Leaves t id p := by
  obtain ⟨q, hq, hp⟩ := h
  refine ⟨q, (hwf.mentions_iff_of_le hle hid).mp hq, ?_⟩
  cases hbound : s.get? q.id with
  | none =>
    rw [hbound] at hp
    exact hp
  | some value =>
    rw [hbound] at hp
    exact (hwf.mentions_iff_of_le hle (hs q.id value hbound)).mp hp

/-- What expanding `id` from the tables `t` on comes to: an issued type in which no other
parameters are left. -/
def Expands (s : Substitution) (t : Interner) (id result : TypeId) (t' : Interner) : Prop :=
  t'.Issued result ∧ ∀ p, t'.Mentions result p → s.Leaves t id p

theorem lasting_expands (s : Substitution) (t : Interner) (id : TypeId) :
    Repeatable.Lasting (s.Expands t id) :=
  fun _ _ _ hwf hle h =>
    ⟨h.1.of_le hle, fun p hp => h.2 p ((hwf.mentions_iff_of_le hle h.1).mp hp)⟩

/-- Where nothing is bound a type may stay as it is. -/
theorem expands_of_isEmpty (h : s.isEmpty = true) {id : TypeId} (hid : t.Issued id) :
    s.Expands t id id t := by
  refine ⟨hid, fun p hp => ⟨p, hp, ?_⟩⟩
  rw [get?_of_isEmpty h]
  rfl

theorem Expands.of_le (hwf : t.WellFormed) (hs : s.Issued t) (hle : t ≤ t') {id : TypeId}
    (hid : t.Issued id) {result : TypeId} {t'' : Interner} (h : s.Expands t' id result t'') :
    s.Expands t id result t'' :=
  ⟨h.1, fun p hp => (h.2 p hp).of_le hwf hs hle hid⟩

/-! ## Expansion -/

/-- Expanding the arguments of an instance one by one. -/
theorem repeatable_mapInstance {f : TypeId → Expanding TypeId}
    {P : TypeId → TypeId → Interner → Prop} (hP : ∀ a, Repeatable.Lasting (P a))
    (hissued : ∀ a b t, P a b t → t.Issued b) (hwf : t.WellFormed) {i : Instance}
    (hi : t.IssuedList i.args)
    (hf : ∀ a ∈ t.args i, ∀ flag t', t ≤ t' → t'.WellFormed →
      Repeatable t' ((f a).run flag) fun r => P a r.1) (flag : Bool) :
    Repeatable t ((mapInstance f i).run flag) fun r t' =>
      r.1.head = i.head ∧ t'.IssuedList r.1.args ∧
        List.Forall₂ (fun a b => P a b t') (t.args i) (t'.args r.1) := by
  refine .readThe ?_ ?_
  · intro t' hle _
    rw [hi.args_eq hle]
  rw [StateT.run_bind]
  refine (Repeatable.mapM_run hP hwf hf flag).bind ?_
  rintro ⟨expanded, flag'⟩ t₁ hle₁ hwf₁ _ hexpanded
  dsimp only at hexpanded ⊢
  split
  · -- no argument has changed, so the list is the old one
    rename_i heq
    refine .pure hwf₁ ⟨rfl, hi.of_le hle₁, ?_⟩
    rw [hi.args_eq hle₁, ← heq]
    exact heq ▸ hexpanded
  · -- otherwise the new arguments are interned
    have hargs : ∀ b ∈ expanded, t₁.Issued b := by
      intro b hb
      obtain ⟨a, -, hab⟩ := exists_of_mem_right hexpanded hb
      exact hissued a b t₁ hab
    refine ((repeatable_apply hwf₁ i.head hargs).lift flag').mono ?_
    rintro ⟨i', _⟩ t₂ hle₂ hwf₂ _ ⟨hhead, hlist, hargs'⟩
    refine ⟨hhead, hlist, ?_⟩
    dsimp only at hargs' ⊢
    rw [hargs']
    exact hexpanded.imp fun a b hab => hP a b t₁ t₂ hwf₁ hle₂ hab

/-- Expanding the items of tuple elements one by one. -/
theorem repeatable_mapElements {f : TypeId → Expanding TypeId}
    {P : TypeId → TypeId → Interner → Prop} (hP : ∀ a, Repeatable.Lasting (P a))
    (hwf : t.WellFormed) {es : List (Element TypeId)}
    (hf : ∀ e ∈ es, ∀ flag t', t ≤ t' → t'.WellFormed →
      Repeatable t' ((f e.item).run flag) fun r => P e.item r.1) (flag : Bool) :
    Repeatable t ((mapElements f es).run flag) fun r t' =>
      List.Forall₂ (fun e e' => P e.item e'.item t') es r.1 := by
  refine Repeatable.mapM_run (P := fun (e e' : Element TypeId) => P e.item e'.item)
    (fun e e' => hP e.item e'.item) hwf ?_ flag
  intro e he flag' t' hle hwf'
  rw [StateT.run_bind]
  refine (hf e he flag' t' hle hwf').bind ?_
  rintro ⟨item, flag''⟩ t₁ _ hwf₁ _ hitem
  exact .pure hwf₁ hitem

/-- A structure made of what the parts of an issued type expand to leaves nothing more. -/
theorem leaves_of_parts {id : TypeId} {cs rs : List TypeId}
    (hcs : ∀ c ∈ cs, c ∈ t.children id)
    (h : List.Forall₂ (fun c r => s.Expands t c r t') cs rs) {p : Param}
    (hp : ∃ r ∈ rs, t'.Mentions r p) : s.Leaves t id p := by
  obtain ⟨r, hr, hp⟩ := hp
  obtain ⟨c, hc, hcr⟩ := exists_of_mem_right h hr
  exact (hcr.2 p hp).of_child (hcs c hc)

/-- The same for a structure that has been interned since. -/
theorem leaves_of_structure {t₁ t₂ : Interner} (hwf₁ : t₁.WellFormed) (hle : t₁ ≤ t₂)
    {id result : TypeId} {data : TypeData} (hissued : t₁.IssuedData data)
    (hdata : result.isIntrinsic = true ∨ t₂.lookup result = some data)
    (hparam : ∀ q, data ≠ .param q) {cs : List TypeId} (hcs : ∀ c ∈ cs, c ∈ t.children id)
    (h : List.Forall₂ (fun c r => s.Expands t c r t₁) cs (t₁.childrenOf data)) {p : Param}
    (hp : t₂.Mentions result p) : s.Leaves t id p := by
  obtain ⟨r, hr, hp⟩ := mentions_childrenOf hdata hparam hp
  rw [hissued.childrenOf_eq hle] at hr
  refine leaves_of_parts hcs h ⟨r, hr, ?_⟩
  exact (hwf₁.mentions_iff_of_le hle (hwf₁.issued_of_mem_childrenOf hr)).mp hp

section Structures

variable {id : TypeId} {f : TypeId → Expanding TypeId} (hwf : t.WellFormed) (hid : t.Issued id)
  (hf : ∀ c ∈ t.children id, ∀ flag t', t ≤ t' → t'.WellFormed →
    Repeatable t' ((f c).run flag) fun r => s.Expands t c r.1)

include hwf hid hf

/-- Expanding an instance, whose handle is kept if nothing changes. -/
theorem repeatable_expandInst {i : Instance} (hdata : t.lookup id = some (.inst i)) (flag : Bool) :
    Repeatable t ((do
      let expanded ← mapInstance f i
      if expanded = i then return id else Interner.inst expanded : Expanding TypeId).run flag)
      fun r => s.Expands t id r.1 := by
  have hissued : t.IssuedData (.inst i) := hwf.issuedData_of_lookup hdata
  have hargs : ∀ c ∈ t.args i, c ∈ t.children id := by
    rw [children_of_lookup hdata]
    exact fun c hc => hc
  rw [StateT.run_bind]
  refine (repeatable_mapInstance (lasting_expands s t) (fun _ _ _ h => h.1) hwf hissued
    (fun c hc => hf c (hargs c hc)) flag).bind ?_
  rintro ⟨i', flag'⟩ t₁ hle₁ hwf₁ _ ⟨-, hlist, hexpanded⟩
  have hissued' : t₁.IssuedData (.inst i') := hlist
  dsimp only
  split
  · rename_i heq
    refine .pure hwf₁ ⟨hid.of_le hle₁, fun p hp => ?_⟩
    exact leaves_of_structure hwf₁ t₁.le_refl hissued' (.inr (heq ▸ lookup_of_le hle₁ hdata))
      (by simp) hargs hexpanded hp
  · refine ((repeatable_intern hwf₁ hissued').lift flag').mono ?_
    rintro ⟨result, _⟩ t₂ hle₂ _ _ ⟨hresult, hdata'⟩
    refine ⟨hresult, fun p hp => ?_⟩
    exact leaves_of_structure hwf₁ hle₂ hissued' hdata' (by simp) hargs hexpanded hp

/-- Expanding a tuple, whose handle is kept if nothing changes. -/
theorem repeatable_expandTuple {list : ElementListId} (hdata : t.lookup id = some (.tuple list))
    (flag : Bool) :
    Repeatable t ((do
      let expanded ← mapElements f (t.elementList list)
      if expanded = t.elementList list then return id
      else Interner.tuple expanded : Expanding TypeId).run flag)
      fun r => s.Expands t id r.1 := by
  have hissued : t.IssuedData (.tuple list) := hwf.issuedData_of_lookup hdata
  have hitems : ∀ c ∈ (t.elementList list).map Element.item, c ∈ t.children id := by
    rw [children_of_lookup hdata]
    exact fun c hc => hc
  rw [StateT.run_bind]
  refine (repeatable_mapElements (lasting_expands s t) hwf
    (fun e he => hf e.item (hitems _ (List.mem_map_of_mem he))) flag).bind ?_
  rintro ⟨es, flag'⟩ t₁ hle₁ hwf₁ _ hexpanded
  dsimp only at hexpanded ⊢
  have hexpanded' : List.Forall₂ (fun c r => s.Expands t c r t₁)
      ((t.elementList list).map Element.item) (es.map Element.item) := by
    rw [List.forall₂_map_left_iff, List.forall₂_map_right_iff]
    exact hexpanded
  split
  · rename_i heq
    refine .pure hwf₁ ⟨hid.of_le hle₁, fun p hp => ?_⟩
    refine leaves_of_structure hwf₁ t₁.le_refl (hissued.of_le hle₁)
      (.inr (lookup_of_le hle₁ hdata)) (by simp) hitems ?_ hp
    -- the elements are read from the later tables
    show List.Forall₂ _ _ ((t₁.elementList list).map Element.item)
    rw [IssuedElements.elementList_eq hissued hle₁, ← heq]
    exact heq ▸ hexpanded'
  · have hes : ∀ e ∈ es, t₁.Issued e.item := by
      intro e he
      obtain ⟨_, -, h⟩ := exists_of_mem_right hexpanded he
      exact h.1
    refine ((hwf₁.tuple_mentions hes).lift flag').mono ?_
    rintro ⟨result, _⟩ t₂ _ _ _ ⟨hresult, hmentions⟩
    refine ⟨hresult, fun p hp => ?_⟩
    obtain ⟨e, he, hp⟩ := hmentions p hp
    exact leaves_of_parts hitems hexpanded' ⟨e.item, List.mem_map_of_mem he, hp⟩

/-- Expanding a union, whose handle is kept if nothing changes. -/
theorem repeatable_expandUnion {list : TypeListId} (hdata : t.lookup id = some (.union list))
    (flag : Bool) :
    Repeatable t ((do
      let expanded ← (t.typeList list).mapM f
      if expanded = t.typeList list then return id
      else Interner.union expanded : Expanding TypeId).run flag)
      fun r => s.Expands t id r.1 := by
  have hissued : t.IssuedData (.union list) := hwf.issuedData_of_lookup hdata
  have hmembers : ∀ c ∈ t.typeList list, c ∈ t.children id := by
    rw [children_of_lookup hdata]
    exact fun c hc => hc
  rw [StateT.run_bind]
  refine (Repeatable.mapM_run (lasting_expands s t) hwf
    (fun c hc => hf c (hmembers c hc)) flag).bind ?_
  rintro ⟨rs, flag'⟩ t₁ hle₁ hwf₁ _ hexpanded
  dsimp only at hexpanded ⊢
  split
  · rename_i heq
    refine .pure hwf₁ ⟨hid.of_le hle₁, fun p hp => ?_⟩
    refine leaves_of_structure hwf₁ t₁.le_refl (hissued.of_le hle₁)
      (.inr (lookup_of_le hle₁ hdata)) (by simp) hmembers ?_ hp
    -- the members are read from the later tables
    show List.Forall₂ _ _ (t₁.typeList list)
    rw [IssuedList.typeList_eq hissued hle₁]
    exact heq ▸ hexpanded
  · have hrs : ∀ r ∈ rs, t₁.Issued r := by
      intro r hr
      obtain ⟨_, -, h⟩ := exists_of_mem_right hexpanded hr
      exact h.1
    refine ((hwf₁.union_mentions hrs).lift flag').mono ?_
    rintro ⟨result, _⟩ t₂ _ _ _ ⟨hresult, hmentions⟩
    exact ⟨hresult, fun p hp => leaves_of_parts hmembers hexpanded (hmentions p hp)⟩

end Structures

/-- What becomes of a type that is not intrinsic, as the tables `types` have it. -/
def expandOnce (s : Substitution) (levels : Nat) (types : Interner) (id : TypeId) :
    Expanding TypeId :=
  match types.lookup id with
  | some (.param p) => return (s.get? p.id).getD id
  | some (.inst i) => do
    let expanded ← mapInstance (s.expand levels) i
    if expanded = i then return id else Interner.inst expanded
  | some (.tuple list) => do
    let elements := types.elementList list
    let expanded ← mapElements (s.expand levels) elements
    if expanded = elements then return id else Interner.tuple expanded
  | some (.union list) => do
    let members := types.typeList list
    let expanded ← members.mapM (s.expand levels)
    if expanded = members then return id else Interner.union expanded
  | some .never | some (.any _) | none => return id

section Equations

variable {levels : Nat} {types : Interner} {id : TypeId}

theorem expandOnce_param {p : Param} (hdata : types.lookup id = some (.param p)) :
    s.expandOnce levels types id = pure ((s.get? p.id).getD id) := by
  unfold expandOnce
  rw [hdata]

theorem expandOnce_inst {i : Instance} (hdata : types.lookup id = some (.inst i)) :
    s.expandOnce levels types id = (do
      let expanded ← mapInstance (s.expand levels) i
      if expanded = i then return id
      else Interner.inst expanded : Expanding TypeId) := by
  unfold expandOnce
  rw [hdata]

theorem expandOnce_tuple {list : ElementListId} (hdata : types.lookup id = some (.tuple list)) :
    s.expandOnce levels types id = (do
      let expanded ← mapElements (s.expand levels) (types.elementList list)
      if expanded = types.elementList list then return id
      else Interner.tuple expanded : Expanding TypeId) := by
  unfold expandOnce
  rw [hdata]

theorem expandOnce_union {list : TypeListId} (hdata : types.lookup id = some (.union list)) :
    s.expandOnce levels types id = (do
      let expanded ← (types.typeList list).mapM (s.expand levels)
      if expanded = types.typeList list then return id
      else Interner.union expanded : Expanding TypeId) := by
  unfold expandOnce
  rw [hdata]

end Equations

theorem expand_of_intrinsic {levels : Nat} {id : TypeId} (h : id.isIntrinsic = true) :
    s.expand levels id = pure id := by
  unfold expand
  rw [if_pos h]

theorem expand_succ {levels : Nat} {id : TypeId} (h : id.isIntrinsic = false) :
    s.expand (levels + 1) id = getThe Interner >>= fun types => s.expandOnce levels types id := by
  rw [expand, if_neg (Bool.eq_false_iff.mp h)]
  rfl

/-- What an issued type is made of stays the same. -/
theorem expandOnce_eq {levels : Nat} (hwf : t.WellFormed) {id : TypeId} (hid : t.Issued id)
    (hle : t ≤ t') : s.expandOnce levels t' id = s.expandOnce levels t id := by
  unfold expandOnce
  rw [hid.lookup_eq hle]
  split
  · rfl
  · rfl
  · rename_i list hdata
    have hissued : t.IssuedData (.tuple list) := hwf.issuedData_of_lookup hdata
    rw [IssuedElements.elementList_eq hissued hle]
  · rename_i list hdata
    have hissued : t.IssuedData (.union list) := hwf.issuedData_of_lookup hdata
    rw [IssuedList.typeList_eq hissued hle]
  · rfl
  · rfl
  · rfl

/-- Expanding an issued type is repeatable, and leaves nothing that it should not. -/
theorem repeatable_expand {levels : Nat} (hwf : t.WellFormed) (hs : s.Issued t) {id : TypeId}
    (hid : t.Issued id) (flag : Bool) :
    Repeatable t ((s.expand levels id).run flag) fun r => s.Expands t id r.1 := by
  induction levels generalizing t id flag with
  | zero =>
    unfold expand
    split
    · rename_i hintrinsic
      exact .pure hwf ⟨hid, fun p hp => absurd hp (not_mentions_of_intrinsic hintrinsic)⟩
    · exact .pure hwf ⟨issued_any .fromError,
        fun p hp => absurd hp (not_mentions_of_intrinsic rfl)⟩
  | succ levels ih =>
    have hstay : (∀ p, ¬ t.Mentions id p) →
        Repeatable t ((pure id : Expanding TypeId).run flag) fun r => s.Expands t id r.1 :=
      fun h => .pure hwf ⟨hid, fun p hp => absurd hp (h p)⟩
    cases hintrinsic : id.isIntrinsic with
    | true =>
      rw [expand_of_intrinsic hintrinsic]
      exact hstay fun p => not_mentions_of_intrinsic hintrinsic
    | false =>
      -- one level down, at any later time
      have hchild : ∀ c ∈ t.children id, ∀ flag t', t ≤ t' → t'.WellFormed →
          Repeatable t' ((s.expand levels c).run flag) fun r => s.Expands t c r.1 := by
        intro c hc flag t' hle hwf'
        have hissued := hwf.issued_of_mem_children hc
        refine (ih hwf' (hs.of_le hle) (hissued.of_le hle) flag).mono ?_
        exact fun r t'' _ _ _ h => h.of_le hwf hs hle hissued
      rw [expand_succ hintrinsic]
      refine .readThe (fun t' hle _ => expandOnce_eq hwf hid hle) ?_
      unfold expandOnce
      split
      · -- a parameter gives way to what it is bound to, if it is
        rename_i q hdata
        refine .pure hwf ?_
        have hq : t.Mentions id q := (mentions_param_iff hdata).mpr rfl
        dsimp only
        cases hbound : s.get? q.id with
        | none =>
          refine ⟨hid, fun p hp => ⟨q, hq, ?_⟩⟩
          rw [hbound]
          exact (mentions_param_iff hdata).mp hp
        | some value =>
          refine ⟨hs q.id value hbound, fun p hp => ⟨q, hq, ?_⟩⟩
          rw [hbound]
          exact hp
      · rename_i i hdata
        exact repeatable_expandInst hwf hid hchild hdata flag
      · rename_i list hdata
        exact repeatable_expandTuple hwf hid hchild hdata flag
      · rename_i list hdata
        exact repeatable_expandUnion hwf hid hchild hdata flag
      -- `Never`, an `Any` and what is not known stay, for they mention nothing
      · rename_i hdata
        exact hstay fun p => not_mentions_of_leaf (by simp [hdata, childrenOf])
      · rename_i hdata
        exact hstay fun p => not_mentions_of_leaf (by simp [hdata, childrenOf])
      · rename_i hdata
        exact hstay fun p => not_mentions_of_leaf (by simp [hdata])

/-- Expanding at a later time leaves no more than it would have then. -/
theorem repeatable_expand_of_le {levels : Nat} (hwf : t.WellFormed) (hs : s.Issued t) {id : TypeId}
    (hid : t.Issued id) (flag : Bool) {t' : Interner} (hle : t ≤ t') (hwf' : t'.WellFormed) :
    Repeatable t' ((s.expand levels id).run flag) fun r => s.Expands t id r.1 := by
  refine (repeatable_expand hwf' (hs.of_le hle) (hid.of_le hle) flag).mono ?_
  exact fun r t'' _ _ _ h => h.of_le hwf hs hle hid

/-- Expanding a type from scratch. -/
theorem repeatable_applyType (hwf : t.WellFormed) (hs : s.Issued t) {id : TypeId}
    (hid : t.Issued id) : Repeatable t (s.apply id) (s.Expands t id) := by
  unfold apply
  split
  · rename_i hempty
    exact .pure hwf (expands_of_isEmpty hempty hid)
  · exact Repeatable.drop (repeatable_expand hwf hs hid false)

/-- Expanding the arguments of an instance. -/
theorem repeatable_applyInstance (hwf : t.WellFormed) (hs : s.Issued t) {i : Instance}
    (hi : t.IssuedList i.args) :
    Repeatable t (s.applyInstance i) fun i' t' =>
      i'.head = i.head ∧ t'.IssuedList i'.args ∧
        List.Forall₂ (fun a b => s.Expands t a b t') (t.args i) (t'.args i') := by
  unfold applyInstance
  split
  · rename_i hempty
    refine .pure hwf ⟨rfl, hi, List.forall₂_same.mpr fun a ha => ?_⟩
    exact expands_of_isEmpty hempty (hwf.issued_of_mem_typeList ha)
  · refine Repeatable.drop (repeatable_mapInstance (lasting_expands s t) (fun _ _ _ h => h.1) hwf hi
      ?_ false)
    intro a ha flag t' hle hwf'
    exact repeatable_expand_of_le hwf hs (hwf.issued_of_mem_typeList ha) flag hle hwf'

/-- Expanding the items of tuple elements. -/
theorem repeatable_applyElements (hwf : t.WellFormed) (hs : s.Issued t)
    {es : List (Element TypeId)} (hes : ∀ e ∈ es, t.Issued e.item) :
    Repeatable t (s.applyElements es) fun es' t' =>
      List.Forall₂ (fun e e' => s.Expands t e.item e'.item t') es es' := by
  unfold applyElements
  refine Repeatable.drop (repeatable_mapElements (lasting_expands s t) hwf ?_ false)
  intro e he flag t' hle hwf'
  exact repeatable_expand_of_le hwf hs (hes e he) flag hle hwf'

end Supertypes.Substitution
