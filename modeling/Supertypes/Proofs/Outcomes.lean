import Supertypes.Proofs.ExpansionInStep
import Supertypes.Proofs.Unions

/-!
# Outcomes of expansion

What expansion has made of types, read off the tables afterwards.

- `Interner.Deep`: a type goes down some levels. `Substitution.expandAll_flag_iff` says that the
  flag of an expansion is raised for types that go down to the limit, and for no others.
- `Substitution.Becomes`: what a type becomes if the bound parameters are replaced at every
  depth. `Substitution.Becomes.unique` says that this is one type.
- `Substitution.becomes_of_expand` and `Substitution.becomesInstance_of_applyInstance`: expansion
  that stays above the limit has that outcome.
-/

namespace Supertypes

variable [Digest TypeData]

namespace Interner

variable {t t' : Interner} {x : TypeId}

/-! ## Depth -/

/-- The type goes down `levels` levels: a type that is not intrinsic lies so deep in it. -/
def Deep (t : Interner) : Nat → TypeId → Prop
  | 0, x => x.isIntrinsic = false
  | levels + 1, x => ∃ c ∈ t.children x, t.Deep levels c

instance decidableDeep (t : Interner) : ∀ levels x, Decidable (t.Deep levels x)
  | 0, x => inferInstanceAs (Decidable (x.isIntrinsic = false))
  | levels + 1, x =>
    have := decidableDeep t levels
    inferInstanceAs (Decidable (∃ c ∈ t.children x, t.Deep levels c))

theorem WellFormed.deep_iff_of_le (hwf : t.WellFormed) (hle : t ≤ t') {levels : Nat}
    (hx : t.Issued x) : t'.Deep levels x ↔ t.Deep levels x := by
  induction levels generalizing x with
  | zero => exact Iff.rfl
  | succ levels ih =>
    unfold Deep
    rw [hwf.children_eq hx hle]
    exact exists_congr fun c => and_congr_right fun hc => ih (hwf.issued_of_mem_children hc)

/-- A type that needs no table is not deep at all. -/
theorem not_deep_of_intrinsic (h : x.isIntrinsic = true) (levels : Nat) : ¬ t.Deep levels x := by
  cases levels with
  | zero =>
    intro hdeep
    rw [show x.isIntrinsic = false from hdeep] at h
    cases h
  | succ levels =>
    rintro ⟨c, hc, -⟩
    obtain ⟨data, hdata, hchild⟩ := lookup_of_mem_children hc
    rcases data_of_intrinsic h hdata with rfl | ⟨reason, rfl⟩
    · exact absurd hchild List.not_mem_nil
    · exact absurd hchild List.not_mem_nil

/-- A type is deep if a part of it is, one level below. -/
theorem deep_succ_iff {data : TypeData} {levels : Nat} (hdata : t.lookup x = some data) :
    t.Deep (levels + 1) x ↔ ∃ c ∈ t.childrenOf data, t.Deep levels c := by
  rw [← children_of_lookup hdata]
  rfl

/-! ## What is found -/

omit [Digest TypeData] in
theorem Finds.of_lift {α σ : Type} {y : Interning α} [Grows y] {s : σ} {r : α × σ}
    (h : t.Finds ((monadLift y : StateT σ Interning α).run s) r) : t.Finds y r.1 ∧ r.2 = s := by
  rw [StateT.run_monadLift] at h
  obtain ⟨a, ha, h⟩ := h.of_bind
  obtain rfl := h.of_pure
  exact ⟨ha, rfl⟩

omit [Digest TypeData] in
theorem Finds.apply {c : ClassId} {args : List TypeId} {i : Instance}
    (h : t.Finds (Interner.apply c args) i) :
    i.head = c ∧ t.IssuedList i.args ∧ t.args i = args := by
  obtain ⟨list, hlist, h⟩ := h.of_bind
  obtain rfl := h.of_pure
  exact ⟨rfl, hlist.internTypes⟩

omit [Digest TypeData] in
/-- An action that raises a flag for some entries raises it for a list with such an entry. -/
theorem Finds.flag_mapM {α β : Type} {f : α → StateT Bool Interning β}
    [∀ a flag, Grows ((f a).run flag)] {P : α → Prop} {xs : List α}
    (hf : ∀ a ∈ xs, ∀ flag r, t.Finds ((f a).run flag) r → (r.2 = true ↔ flag = true ∨ P a))
    {flag : Bool} {r : List β × Bool} (h : t.Finds ((xs.mapM f).run flag) r) :
    r.2 = true ↔ flag = true ∨ ∃ a ∈ xs, P a := by
  induction xs generalizing flag r with
  | nil =>
    rw [h.of_pure]
    simp
  | cons a xs ih =>
    rw [List.mapM_cons, StateT.run_bind] at h
    obtain ⟨⟨b, flag₁⟩, hb, h⟩ := h.of_bind
    rw [StateT.run_bind] at h
    obtain ⟨⟨bs, flag₂⟩, hbs, h⟩ := h.of_bind
    rw [h.of_pure]
    have hfirst := hf a List.mem_cons_self flag _ hb
    have hrest := ih (fun a' ha' => hf a' (List.mem_cons_of_mem _ ha')) hbs
    dsimp only at hfirst hrest ⊢
    rw [hrest, hfirst, List.exists_mem_cons_iff, or_assoc]

end Interner

namespace Substitution

open Interner

variable {s : Substitution} {t t' : Interner} {x y : TypeId} {i j : Instance} {levels : Nat}
  {flag : Bool}

/-! ## One level -/

omit [Digest TypeData] in
/-- The arguments of an instance have been expanded one by one. -/
theorem finds_mapInstance {f : TypeId → Expanding TypeId} [∀ a flag, Grows ((f a).run flag)]
    (hi : t.IssuedList i.args) {r : Instance × Bool}
    (h : t.Finds ((mapInstance f i).run flag) r) :
    r.1.head = i.head ∧ t.IssuedList r.1.args ∧
      t.Finds (((t.args i).mapM f).run flag) (t.args r.1, r.2) := by
  have h' : t.Finds ((do
    let expanded ← (t.args i).mapM f
    if expanded = t.args i then return i
    else Interner.apply i.head expanded : Expanding Instance).run flag) r := h
  rw [StateT.run_bind] at h'
  obtain ⟨⟨expanded, flag'⟩, hexpanded, h'⟩ := h'.of_bind
  dsimp only at h'
  split at h'
  · rename_i hsame
    obtain rfl := h'.of_pure
    rw [hsame] at hexpanded
    exact ⟨rfl, hi, hexpanded⟩
  · obtain ⟨happly, hflag⟩ := h'.of_lift
    obtain ⟨hhead, hissued, hargs⟩ := happly.apply
    rw [hargs, hflag]
    exact ⟨hhead, hissued, hexpanded⟩

section Structures

variable (hwf : t.WellFormed) (hroom : t.HasRoom) {r : TypeId × Bool}
  (h : t.Finds ((s.expandOnce levels t x).run flag) r)

include hwf hroom h

/-- An instance has become an instance. -/
theorem finds_expandInst (hdata : t.lookup x = some (.inst i)) :
    ∃ j, t.lookup r.1 = some (.inst j) ∧ j.head = i.head ∧
      t.Finds (((t.args i).mapM (s.expand levels)).run flag) (t.args j, r.2) := by
  rw [expandOnce_inst hdata, StateT.run_bind] at h
  obtain ⟨⟨j, flag'⟩, hj, h⟩ := h.of_bind
  obtain ⟨hhead, -, hargs⟩ := finds_mapInstance (hwf.issuedData_of_lookup hdata) hj
  dsimp only at h hhead hargs
  split at h
  · -- the handle has been kept
    rename_i hsame
    obtain rfl := h.of_pure
    exact ⟨j, hsame ▸ hdata, hhead, hargs⟩
  · obtain ⟨hinst, hflag⟩ := h.of_lift
    rw [hflag]
    exact ⟨j, hinst.intern hwf hroom (by simp) (by simp), hhead, hargs⟩

/-- A tuple has become a tuple. -/
theorem finds_expandTuple {list : ElementListId} (hdata : t.lookup x = some (.tuple list)) :
    ∃ list', t.lookup r.1 = some (.tuple list') ∧
      t.Finds ((mapElements (s.expand levels) (t.elementList list)).run flag)
        (t.elementList list', r.2) := by
  rw [expandOnce_tuple hdata, StateT.run_bind] at h
  obtain ⟨⟨es, flag'⟩, hes, h⟩ := h.of_bind
  dsimp only at h
  split at h
  · -- the handle has been kept
    rename_i hsame
    obtain rfl := h.of_pure
    exact ⟨list, hdata, hsame ▸ hes⟩
  · obtain ⟨htuple, hflag⟩ := h.of_lift
    obtain ⟨list', hlist', hid⟩ := htuple.of_bind
    have helements := hlist'.internElements.2
    rw [hflag]
    exact ⟨list', hid.intern hwf hroom (by simp) (by simp), helements ▸ hes⟩

omit hroom in
/-- A union has become the union of what its members have become. -/
theorem finds_expandUnion {list : TypeListId} (hdata : t.lookup x = some (.union list))
    (hnormal : t.NormalMembers (t.typeList list)) :
    ∃ rs, t.Finds (((t.typeList list).mapM (s.expand levels)).run flag) (rs, r.2) ∧
      t.Finds (Interner.union rs) r.1 := by
  rw [expandOnce_union hdata, StateT.run_bind] at h
  obtain ⟨⟨rs, flag'⟩, hrs, h⟩ := h.of_bind
  dsimp only at h
  split at h
  · -- the handle has been kept
    rename_i hsame
    obtain rfl := h.of_pure
    refine ⟨rs, hrs, ?_⟩
    rw [hsame]
    exact (fixed_union hwf hdata hnormal (.refl _)).settled.finds hwf
  · obtain ⟨hunion, hflag⟩ := h.of_lift
    rw [hflag]
    exact ⟨rs, hrs, hunion⟩

end Structures

/-! ## The limit -/

omit [Digest TypeData] in
/-- Tuple elements are expanded like a list of types. -/
theorem flag_mapElements {f : TypeId → Expanding TypeId} [∀ a flag, Grows ((f a).run flag)]
    {P : TypeId → Prop} {es : List (Element TypeId)}
    (hf : ∀ e ∈ es, ∀ flag r, t.Finds ((f e.item).run flag) r →
      (r.2 = true ↔ flag = true ∨ P e.item))
    {r : List (Element TypeId) × Bool} (h : t.Finds ((mapElements f es).run flag) r) :
    r.2 = true ↔ flag = true ∨ ∃ e ∈ es, P e.item := by
  refine Finds.flag_mapM (fun e he flag r hr => ?_) h
  rw [StateT.run_bind] at hr
  obtain ⟨⟨item, flag'⟩, hitem, hr⟩ := hr.of_bind
  obtain rfl := hr.of_pure
  exact hf e he flag _ hitem

omit [Digest TypeData] in
/-- What tuple elements have been expanded to. -/
theorem forall₂_of_finds_mapElements {f : TypeId → Expanding TypeId}
    [∀ a flag, Grows ((f a).run flag)] {P : TypeId → TypeId → Prop} {es : List (Element TypeId)}
    (hf : ∀ e ∈ es, ∀ flag r, t.Finds ((f e.item).run flag) r → P e.item r.1)
    {r : List (Element TypeId) × Bool} (h : t.Finds ((mapElements f es).run flag) r) :
    List.Forall₂ (fun e e' => e.isRest = e'.isRest ∧ P e.item e'.item) es r.1 := by
  refine forall₂_imp_mem h.mapM_run fun e he e' _ => ?_
  rintro ⟨flag, flag', he'⟩
  rw [StateT.run_bind] at he'
  obtain ⟨⟨item, flag''⟩, hitem, he'⟩ := he'.of_bind
  cases he'.of_pure
  exact ⟨rfl, hf e he _ _ hitem⟩

/-- An expansion that goes down `levels` levels raises the flag for the types that go deeper. -/
theorem flag_expand (hwf : t.WellFormed) (hroom : t.HasRoom) (hx : t.Proper .anything x)
    {r : TypeId × Bool} (h : t.Finds ((s.expand levels x).run flag) r) :
    r.2 = true ↔ flag = true ∨ t.Deep levels x := by
  induction levels generalizing x flag r with
  | zero =>
    -- no level is left: a type that needs a table is too deep
    unfold expand at h
    split at h
    · rename_i hintrinsic
      rw [h.of_pure]
      exact (or_iff_left (not_deep_of_intrinsic hintrinsic 0)).symm
    · rename_i hintrinsic
      have hdeep : x.isIntrinsic = false := by simpa using hintrinsic
      have hrun : t.Finds (pure (.any .fromError, true) : Interning (TypeId × Bool)) r := h
      rw [hrun.of_pure]
      exact iff_of_true rfl (.inr hdeep)
  | succ levels ih =>
    cases hintrinsic : x.isIntrinsic with
    | true =>
      rw [expand_of_intrinsic hintrinsic] at h
      rw [h.of_pure]
      exact (or_iff_left (not_deep_of_intrinsic hintrinsic _)).symm
    | false =>
      rw [expand_succ hintrinsic] at h
      have h' : t.Finds ((s.expandOnce levels t x).run flag) r := h
      -- the children lie one level less deep
      have hchild : ∀ data, t.lookup x = some data → ∀ c ∈ t.childrenOf data, ∀ flag r,
          t.Finds ((s.expand levels c).run flag) r →
            (r.2 = true ↔ flag = true ∨ t.Deep levels c) := by
        intro data hdata c hc flag r hr
        rw [← children_of_lookup hdata] at hc
        exact ih (hx.of_mem_children c hc) hr
      cases hx with
      | leaf hleaf =>
        rw [hintrinsic] at hleaf
        cases hleaf
      | param hdata _ =>
        rw [expandOnce_param hdata] at h'
        rw [h'.of_pure, deep_succ_iff hdata]
        simp [childrenOf]
      | inst hdata _ _ =>
        obtain ⟨j, -, -, hargs⟩ := finds_expandInst hwf hroom h' hdata
        rw [deep_succ_iff hdata]
        exact Finds.flag_mapM (hchild _ hdata) hargs
      | @tuple _ list hdata _ =>
        obtain ⟨list', -, hes⟩ := finds_expandTuple hwf hroom h' hdata
        have hitems := flag_mapElements
          (fun e he => hchild _ hdata e.item (List.mem_map_of_mem he)) hes
        rw [deep_succ_iff hdata, hitems]
        simp only [childrenOf, List.mem_map, exists_exists_and_eq_and]
      -- no member is lost in the joining
      | union hdata hnormal _ =>
        obtain ⟨rs, hrs, -⟩ := finds_expandUnion hwf h' hdata hnormal
        rw [deep_succ_iff hdata]
        exact Finds.flag_mapM (hchild _ hdata) hrs

/-- The flag says whether one of the types goes down to the limit. -/
theorem expandAll_flag_iff (hwf : t.WellFormed) (hs : s.Issued t) {ids : List TypeId}
    (hids : ∀ id ∈ ids, t.Proper .anything id) (hroom : ((s.expandAll ids).run t).2.HasRoom) :
    ((s.expandAll ids).run t).1.2 = true ↔ ∃ id ∈ ids, t.Deep Limits.expansion id := by
  have hall : Repeatable t (s.expandAll ids) fun r t' =>
      List.Forall₂ (fun id result => s.Expands t id result t') ids r.1 :=
    Repeatable.mapM_run (lasting_expands s t) hwf (fun id hid flag t' hle hwf' =>
      repeatable_expand_of_le hwf hs (hids id hid).issued flag hle hwf') false
  have hflag := Finds.flag_mapM (fun id hid flag r hr => flag_expand hall.wellFormed hroom
    ((hids id hid).of_le hwf hall.le) hr) (hall.settled.finds hall.wellFormed)
  rw [hflag, or_iff_right Bool.false_ne_true]
  exact exists_congr fun id => and_congr_right fun hid =>
    hwf.deep_iff_of_le hall.le (hids id hid).issued

/-! ## Outcomes -/

/-- `x` becomes `y` if the bound parameters in it are replaced at every depth, and unions are
joined anew. -/
inductive Becomes (s : Substitution) (t : Interner) : TypeId → TypeId → Prop
  | leaf {x : TypeId} (hx : x.isIntrinsic = true) : Becomes s t x x
  | param {x : TypeId} {p : Param} (hdata : t.lookup x = some (.param p)) :
    Becomes s t x ((s.get? p.id).getD x)
  | inst {x y : TypeId} {i j : Instance} {f : TypeId → TypeId}
    (hdata : t.lookup x = some (.inst i)) (hdata' : t.lookup y = some (.inst j))
    (hhead : j.head = i.head) (hargs : t.args j = (t.args i).map f)
    (hf : ∀ a ∈ t.args i, Becomes s t a (f a)) : Becomes s t x y
  | tuple {x y : TypeId} {list list' : ElementListId} {f : TypeId → TypeId}
    (hdata : t.lookup x = some (.tuple list)) (hdata' : t.lookup y = some (.tuple list'))
    (hitems : t.elementList list' = (t.elementList list).map fun e => { e with item := f e.item })
    (hf : ∀ e ∈ t.elementList list, Becomes s t e.item (f e.item)) : Becomes s t x y
  | union {x y : TypeId} {list : TypeListId} {f : TypeId → TypeId}
    (hdata : t.lookup x = some (.union list)) (hy : t.Unites ((t.typeList list).map f) y)
    (hproper : t.Proper .anything y) (hf : ∀ m ∈ t.typeList list, Becomes s t m (f m)) :
    Becomes s t x y

/-- The outcome one level deep, of a type that stands for `data`. -/
def Turns (s : Substitution) (t : Interner) (x y : TypeId) : TypeData → Prop
  | .never | .any _ => y = x
  | .param p => y = (s.get? p.id).getD x
  | .inst i => ∃ (j : Instance) (f : TypeId → TypeId), t.lookup y = some (.inst j) ∧
    j.head = i.head ∧ t.args j = (t.args i).map f ∧ ∀ a ∈ t.args i, s.Becomes t a (f a)
  | .tuple list => ∃ (list' : ElementListId) (f : TypeId → TypeId),
    t.lookup y = some (.tuple list') ∧
    t.elementList list' = (t.elementList list).map (fun e => { e with item := f e.item }) ∧
    ∀ e ∈ t.elementList list, s.Becomes t e.item (f e.item)
  | .union list => ∃ f : TypeId → TypeId, t.Unites ((t.typeList list).map f) y ∧
    t.Proper .anything y ∧ ∀ m ∈ t.typeList list, s.Becomes t m (f m)

/-- Everything that is bound has its unions in normal form. -/
def Regular (s : Substitution) (t : Interner) : Prop :=
  ∀ p value, s.get? p = some value → t.Proper .anything value

theorem regular_ofArgs {params : List Param} {args : List TypeId}
    (hargs : ∀ a ∈ args, t.Proper .anything a) : (ofArgs params args).Regular t :=
  fun _ value hvalue => hargs value (mem_of_get?_ofArgs hvalue)

namespace Becomes

/-- What a type becomes, told by its structure. -/
theorem turns (h : s.Becomes t x y) {data : TypeData} (hdata : t.lookup x = some data) :
    s.Turns t x y data := by
  cases h with
  | leaf hx => rcases data_of_intrinsic hx hdata with rfl | ⟨reason, rfl⟩ <;> rfl
  | param hdata' =>
    cases hdata'.symm.trans hdata
    rfl
  | inst hdata' hy hhead hargs hf =>
    cases hdata'.symm.trans hdata
    exact ⟨_, _, hy, hhead, hargs, hf⟩
  | tuple hdata' hy hitems hf =>
    cases hdata'.symm.trans hdata
    exact ⟨_, _, hy, hitems, hf⟩
  | union hdata' hy hproper hf =>
    cases hdata'.symm.trans hdata
    exact ⟨_, hy, hproper, hf⟩

theorem eq_of_intrinsic (h : s.Becomes t x y) (hx : x.isIntrinsic = true) : y = x := by
  cases h with
  | leaf _ => rfl
  | param hdata => simpa using data_of_intrinsic hx hdata
  | inst hdata _ _ _ _ => simpa using data_of_intrinsic hx hdata
  | tuple hdata _ _ _ => simpa using data_of_intrinsic hx hdata
  | union hdata _ _ _ => simpa using data_of_intrinsic hx hdata

/-- What a proper type becomes is proper. -/
theorem proper (hs : s.Regular t) (hx : t.Proper .anything x) (h : s.Becomes t x y) :
    t.Proper .anything y := by
  induction h with
  | leaf _ => exact hx
  | @param x p hdata =>
    cases hbound : s.get? p.id with
    | none => exact hx
    | some value => exact hs p.id value hbound
  | @inst x y i j f hdata hdata' _ hargs _ ih =>
    refine .inst hdata' trivial fun b hb => ?_
    rw [hargs] at hb
    obtain ⟨a, ha, rfl⟩ := List.mem_map.mp hb
    exact ih a ha (hx.of_mem_children a (by rwa [children_of_lookup hdata]))
  | @tuple x y list list' f hdata hdata' hitems _ ih =>
    refine .tuple hdata' fun e' he' => ?_
    rw [hitems] at he'
    obtain ⟨e, he, rfl⟩ := List.mem_map.mp he'
    refine ih e he (hx.of_mem_children e.item ?_)
    rw [children_of_lookup hdata]
    exact List.mem_map_of_mem he
  | union _ _ hproper _ _ => exact hproper

/-- A type becomes one type. -/
theorem unique (hwf : t.WellFormed) {y' : TypeId} (h : s.Becomes t x y) (h' : s.Becomes t x y') :
    y = y' := by
  induction h generalizing y' with
  | leaf hx => exact (h'.eq_of_intrinsic hx).symm
  | param hdata => exact (h'.turns hdata).symm
  | inst hdata hdata' hhead hargs _ ih =>
    obtain ⟨j, g, hdata₂, hhead₂, hargs₂, hg⟩ := h'.turns hdata
    have hsame := List.map_congr_left fun a ha => ih a ha (hg a ha)
    obtain rfl := hwf.instance_inj (hwf.issuedData_of_lookup hdata')
      (hwf.issuedData_of_lookup hdata₂) (hhead.trans hhead₂.symm)
      (hargs.trans (hsame.trans hargs₂.symm))
    exact hwf.lookup_inj (by simp) (by simp) hdata' hdata₂
  | tuple hdata hdata' hitems _ ih =>
    obtain ⟨list, g, hdata₂, hitems₂, hg⟩ := h'.turns hdata
    have hsame := List.map_congr_left fun (e : Element TypeId) he =>
      congrArg (fun item => { e with item }) (ih e he (hg e he))
    obtain rfl := hwf.elementList_inj (hwf.issuedData_of_lookup hdata')
      (hwf.issuedData_of_lookup hdata₂) (hitems.trans (hsame.trans hitems₂.symm))
    exact hwf.lookup_inj (by simp) (by simp) hdata' hdata₂
  | union hdata hy hproper _ ih =>
    obtain ⟨g, hy₂, hproper₂, hg⟩ := h'.turns hdata
    have hsame := List.map_congr_left fun m hm => ih m hm (hg m hm)
    exact hy.unique hwf hproper hproper₂ (hsame ▸ hy₂)

/-- Where nothing is bound a type stays. -/
theorem of_isEmpty (hempty : s.isEmpty = true) (hx : t.Proper .anything x) : s.Becomes t x x := by
  induction hx with
  | leaf hx _ => exact .leaf hx
  | @param x p hdata _ =>
    have hself : s.Becomes t x ((s.get? p.id).getD x) := .param hdata
    rwa [get?_of_isEmpty hempty] at hself
  | inst hdata _ _ ih => exact .inst hdata hdata rfl (List.map_id _).symm ih
  | tuple hdata _ ih => exact .tuple (f := id) hdata hdata (List.map_id _).symm ih
  | union hdata hnormal hmembers ih =>
    refine .union (f := id) hdata ?_ (.union hdata hnormal hmembers) ih
    rw [List.map_id]
    exact .of_union hdata hnormal

end Becomes

/-! ## What has been found -/

section Found

variable (hwf : t.WellFormed) (hroom : t.HasRoom) (hs : s.Regular t)

include hwf

/-- What types become is a function of theirs. -/
theorem exists_image (s : Substitution) :
    ∃ image : TypeId → TypeId, ∀ x y, s.Becomes t x y → y = image x := by
  classical
  refine ⟨fun x => if h : ∃ y, s.Becomes t x y then h.choose else x, fun x y hxy => ?_⟩
  have hex : ∃ y, s.Becomes t x y := ⟨y, hxy⟩
  exact (hxy.unique hwf hex.choose_spec).trans (dif_pos hex).symm

/-- A list of types becomes its image. -/
theorem exists_map_of_becomes {xs ys : List TypeId} (h : List.Forall₂ (s.Becomes t) xs ys) :
    ∃ f : TypeId → TypeId, ys = xs.map f ∧ ∀ x ∈ xs, s.Becomes t x (f x) := by
  obtain ⟨f, hf⟩ := exists_image hwf s
  refine ⟨f, ?_, fun x hx => ?_⟩
  · rw [← List.forall₂_eq_eq_eq, List.forall₂_map_right_iff]
    exact (h.imp fun x y hxy => hf x y hxy).flip
  · obtain ⟨y, -, hxy⟩ := exists_of_mem_left h hx
    rwa [← hf x y hxy]

theorem exists_map_of_elements_becomes {es es' : List (Element TypeId)}
    (h : List.Forall₂ (fun e e' => e.isRest = e'.isRest ∧ s.Becomes t e.item e'.item) es es') :
    ∃ f : TypeId → TypeId, es' = es.map (fun e => { e with item := f e.item }) ∧
      ∀ e ∈ es, s.Becomes t e.item (f e.item) := by
  obtain ⟨f, hf⟩ := exists_image hwf s
  refine ⟨f, ?_, fun e he => ?_⟩
  · rw [← List.forall₂_eq_eq_eq, List.forall₂_map_right_iff]
    refine (h.imp fun e e' hee' => ?_).flip
    cases e'
    exact congrArg₂ Element.mk (hf _ _ hee'.2) hee'.1.symm
  · obtain ⟨e', -, -, hee'⟩ := exists_of_mem_left h he
    rwa [← hf _ _ hee']

include hroom hs

/-- Expansion that stays above the limit. -/
theorem becomes_of_expand {levels : Nat} (hx : t.Proper .anything x) (hdeep : ¬ t.Deep levels x)
    {r : TypeId × Bool} (h : t.Finds ((s.expand levels x).run flag) r) : s.Becomes t x r.1 := by
  induction levels generalizing x flag r with
  | zero =>
    have hintrinsic : x.isIntrinsic = true := by simpa [Deep] using hdeep
    unfold expand at h
    rw [if_pos hintrinsic] at h
    rw [h.of_pure]
    exact .leaf hintrinsic
  | succ levels ih =>
    cases hintrinsic : x.isIntrinsic with
    | true =>
      rw [expand_of_intrinsic hintrinsic] at h
      rw [h.of_pure]
      exact .leaf hintrinsic
    | false =>
      rw [expand_succ hintrinsic] at h
      have h' : t.Finds ((s.expandOnce levels t x).run flag) r := h
      -- the children stay above the limit one level down
      have hchild : ∀ data, t.lookup x = some data → ∀ c ∈ t.childrenOf data, ∀ b,
          (∃ flag flag', t.Finds ((s.expand levels c).run flag) (b, flag')) → s.Becomes t c b := by
        rintro data hdata c hc b ⟨flag, flag', hb⟩
        rw [← children_of_lookup hdata] at hc
        exact ih (hx.of_mem_children c hc) (fun hdeep' => hdeep ⟨c, hc, hdeep'⟩) hb
      have hmapped : ∀ data, t.lookup x = some data → ∀ cs bs flag',
          t.Finds ((cs.mapM (s.expand levels)).run flag) (bs, flag') →
          (∀ c ∈ cs, c ∈ t.childrenOf data) → List.Forall₂ (s.Becomes t) cs bs :=
        fun data hdata cs bs flag' hbs hcs => forall₂_imp_mem hbs.mapM_run fun c hc b _ =>
          hchild data hdata c (hcs c hc) b
      cases hx with
      | leaf hleaf =>
        rw [hintrinsic] at hleaf
        cases hleaf
      | param hdata _ =>
        rw [expandOnce_param hdata] at h'
        rw [h'.of_pure]
        exact .param hdata
      | inst hdata _ _ =>
        obtain ⟨j, hdata', hhead, hargs⟩ := finds_expandInst hwf hroom h' hdata
        obtain ⟨f, hmap, hf⟩ := exists_map_of_becomes hwf
          (hmapped _ hdata _ _ _ hargs fun c hc => hc)
        exact .inst hdata hdata' hhead hmap hf
      | @tuple _ list hdata _ =>
        obtain ⟨list', hdata', hes⟩ := finds_expandTuple hwf hroom h' hdata
        have hsteps : List.Forall₂ (fun e e' => e.isRest = e'.isRest ∧ s.Becomes t e.item e'.item)
            (t.elementList list) (t.elementList list') :=
          forall₂_of_finds_mapElements (fun e he flag r hr =>
            hchild _ hdata e.item (List.mem_map_of_mem he) r.1 ⟨flag, r.2, hr⟩) hes
        obtain ⟨f, hmap, hf⟩ := exists_map_of_elements_becomes hwf hsteps
        exact .tuple hdata hdata' hmap hf
      | @union _ list hdata hnormal hmembers =>
        obtain ⟨rs, hrs, hunion⟩ := finds_expandUnion hwf h' hdata hnormal
        obtain ⟨f, rfl, hf⟩ := exists_map_of_becomes hwf
          (hmapped _ hdata _ _ _ hrs fun c hc => hc)
        have hproper : ∀ m ∈ (t.typeList list).map f, t.Proper .anything m := by
          intro m' hm'
          obtain ⟨m, hm, rfl⟩ := List.mem_map.mp hm'
          exact (hf m hm).proper hs (hmembers m hm)
        exact .union hdata (hunion.unites hwf hroom hproper) (hunion.proper_union hwf hproper) hf

/-- The same from scratch, where nothing is expanded if nothing is bound. -/
theorem becomes_of_applyType (hx : t.Proper .anything x)
    (hdeep : s.isEmpty = true ∨ ¬ t.Deep Limits.expansion x) (h : t.Finds (s.apply x) y) :
    s.Becomes t x y := by
  unfold apply at h
  split at h
  · rename_i hempty
    rw [h.of_pure]
    exact .of_isEmpty hempty hx
  · rename_i hempty
    rw [map_eq_pure_bind] at h
    obtain ⟨⟨y', flag⟩, hfound, h⟩ := h.of_bind
    obtain rfl := h.of_pure
    exact becomes_of_expand hwf hroom hs hx (hdeep.resolve_left hempty) hfound

/-- Expanding tuple elements stays above the limit. -/
theorem becomes_of_applyElements {es es' : List (Element TypeId)}
    (hes : ∀ e ∈ es, t.Proper .anything e.item)
    (hdeep : ∀ e ∈ es, ¬ t.Deep Limits.expansion e.item) (h : t.Finds (s.applyElements es) es') :
    List.Forall₂ (fun e e' => e.isRest = e'.isRest ∧ s.Becomes t e.item e'.item) es es' := by
  unfold applyElements at h
  rw [map_eq_pure_bind] at h
  obtain ⟨⟨es', flag⟩, hfound, h⟩ := h.of_bind
  obtain rfl := h.of_pure
  exact forall₂_of_finds_mapElements (fun e he flag r hr =>
    becomes_of_expand hwf hroom hs (hes e he) (hdeep e he) hr) hfound

end Found

/-! ## Instances -/

/-- Expanding the arguments of the instance stays above the limit, or nothing is expanded. -/
def Shallow (s : Substitution) (t : Interner) (i : Instance) : Prop :=
  s.isEmpty = true ∨ ∀ a ∈ t.args i, ¬ t.Deep Limits.expansion a

instance decidableShallow (s : Substitution) (t : Interner) (i : Instance) :
    Decidable (s.Shallow t i) :=
  inferInstanceAs (Decidable (s.isEmpty = true ∨ ∀ a ∈ t.args i, ¬ t.Deep Limits.expansion a))

theorem Shallow.of_le (hwf : t.WellFormed) (hle : t ≤ t') (hi : t.IssuedList i.args)
    (h : s.Shallow t i) : s.Shallow t' i := by
  refine h.imp_right fun hdeep a ha => ?_
  rw [hi.args_eq hle] at ha
  rw [hwf.deep_iff_of_le hle (hwf.issued_of_mem_typeList ha)]
  exact hdeep a ha

/-- The arguments of `i` become those of `j`. -/
structure BecomesInstance (s : Substitution) (t : Interner) (i j : Instance) : Prop where
  issued : t.IssuedList i.args
  issued' : t.IssuedList j.args
  head : j.head = i.head
  args : List.Forall₂ (s.Becomes t) (t.args i) (t.args j)

/-- An instance becomes one instance only. -/
theorem BecomesInstance.unique (hwf : t.WellFormed) {j' : Instance}
    (h : s.BecomesInstance t i j) (h' : s.BecomesInstance t i j') : j = j' := by
  obtain ⟨f, hf, hf'⟩ := exists_map_of_becomes hwf h.args
  obtain ⟨g, hg, hg'⟩ := exists_map_of_becomes hwf h'.args
  refine hwf.instance_inj h.issued' h'.issued' (h.head.trans h'.head.symm) ?_
  rw [hf, hg]
  exact List.map_congr_left fun a ha => (hf' a ha).unique hwf (hg' a ha)

/-- Expansion that stays above the limit, or where nothing is bound. -/
theorem becomesInstance_of_applyInstance (hwf : t.WellFormed) (hroom : t.HasRoom)
    (hs : s.Regular t) (hi : t.ProperInstance .anything i) (hshallow : s.Shallow t i)
    (h : t.Finds (s.applyInstance i) j) : s.BecomesInstance t i j := by
  unfold applyInstance at h
  split at h
  · rename_i hempty
    rw [h.of_pure]
    exact ⟨hi.issued, hi.issued, rfl, List.forall₂_same.mpr fun a ha =>
      .of_isEmpty hempty (hi.args a ha)⟩
  · rename_i hempty
    rw [map_eq_pure_bind] at h
    obtain ⟨⟨j', flag⟩, hj, h⟩ := h.of_bind
    obtain rfl := h.of_pure
    obtain ⟨hhead, hissued, hargs⟩ := finds_mapInstance hi.issued hj
    refine ⟨hi.issued, hissued, hhead, forall₂_imp_mem hargs.mapM_run fun a ha b _ => ?_⟩
    rintro ⟨flag₁, flag₂, hb⟩
    exact becomes_of_expand hwf hroom hs (hi.args a ha)
      (hshallow.resolve_left hempty a ha) hb

end Substitution

end Supertypes
