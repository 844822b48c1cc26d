import Supertypes.Proofs.Arity
import Supertypes.Proofs.TupleBases

/-!
# Where an `Any` comes from

- `Substitution.occurs_of_expand`: an `Any` in an expanded type occurs in the type before or in
  what is bound to a parameter, unless it is an error in the place of what lies too deep.
- `Hierarchy.LacksAny`: base edges and tuple shapes have no `Any` for some reason in them. By
  `Hierarchy.Sound.without_oneThenAll` then mapping an instance without one brings none in,
  unless the reason is an error and the class asked for is out of reach.
- `Hierarchy.Reachable.any_origins`: an error is among the arguments just if the class is out of
  reach, and on a path there is always an edge to go on by.
-/

namespace Supertypes

/-! ## Occurrences -/

section

variable [Digest TypeData]

namespace Interner

variable {t t' : Interner} {x y : TypeId} {i : Instance} {reason : AnyReason}

/-- In an intrinsic type nothing else occurs. -/
theorem eq_of_occurs_of_intrinsic (hy : y.isIntrinsic = true) (h : t.Occurs y x) : x = y := by
  rcases h.cases_head with heq | ⟨c, hc, -⟩
  · exact heq.symm
  · obtain ⟨data, hdata, hchild⟩ := lookup_of_mem_children hc
    rcases data_of_intrinsic hy hdata with rfl | ⟨other, rfl⟩
    · exact absurd hchild List.not_mem_nil
    · exact absurd hchild List.not_mem_nil

theorem eq_of_occurs_any {other : AnyReason} (h : t.Occurs (.any other) (.any reason)) :
    reason = other := by
  have heq := eq_of_occurs_of_intrinsic (TypeId.isIntrinsic_any other) h
  revert heq
  cases reason <;> cases other <;> decide

/-- An `Any` in a structure occurs in a part of it. -/
theorem exists_part_of_occurs {data : TypeData} (hdata : t.lookup y = some data)
    (hne : ∀ reason, data ≠ .any reason) (h : t.Occurs y (.any reason)) :
    ∃ c ∈ t.childrenOf data, t.Occurs c (.any reason) := by
  rcases h.cases_head with heq | ⟨c, hc, h⟩
  · rw [heq] at hdata
    have hany : t.lookup (.any reason) = some (.any reason) := by cases reason <;> rfl
    exact absurd (Option.some.inj (hdata.symm.trans hany)) (hne reason)
  · exact ⟨c, by rwa [← children_of_lookup hdata], h⟩

/-- What a type contributes to a union occurs in it. -/
theorem occurs_of_mem_membersOf (h : x ∈ t.membersOf y) : t.Occurs y x := by
  rcases t.membersOf_eq_or y with ⟨list, hdata, hlist⟩ | ⟨-, hself⟩
  · rw [hlist] at h
    exact .single (by rwa [Search.Step, children_of_lookup hdata])
  · rw [hself] at h
    rw [List.mem_singleton.mp h]
    exact .refl

/-- An `Any` in a union occurs in one of the types that have been joined. -/
theorem occurs_of_finds_union (hwf : t.WellFormed) (hroom : t.HasRoom) {members : List TypeId}
    (hy : t.Finds (union members) y) (h : t.Occurs y (.any reason)) :
    ∃ m ∈ members, t.Occurs m (.any reason) := by
  have hcontributes : ∀ {x}, t.Contributes members x → t.Occurs x (.any reason) →
      ∃ m ∈ members, t.Occurs m (.any reason) := by
    rintro x ⟨m, hm, hx⟩ h
    exact ⟨m, hm, (occurs_of_mem_membersOf hx).trans h⟩
  cases hy.isUnion hwf hroom with
  | any hmem _ => exact hcontributes hmem h
  | never _ => exact absurd (eq_of_occurs_of_intrinsic rfl h) (by cases reason <;> decide)
  | single _ _ hall => exact hcontributes ((hall y).mpr rfl).1 h
  | several hdata _ _ _ hall =>
    obtain ⟨c, hc, h⟩ := exists_part_of_occurs hdata (by simp) h
    exact hcontributes ((hall c).mp hc).1 h

/-- An `Any` for this reason occurs in an argument. -/
def HasAny (t : Interner) (reason : AnyReason) (i : Instance) : Prop :=
  ∃ a ∈ t.args i, t.Occurs a (.any reason)

instance decidableOccursAny (t : Interner) (x : TypeId) (reason : AnyReason) :
    Decidable (t.Occurs x (.any reason)) :=
  decidable_of_iff (TypeId.any reason ∈ t.walk x)
    (mem_walk_iff.trans (and_iff_left (by cases reason <;> rfl)))

instance decidableHasAny (t : Interner) (reason : AnyReason) (i : Instance) :
    Decidable (t.HasAny reason i) :=
  inferInstanceAs (Decidable (∃ a ∈ t.args i, t.Occurs a (.any reason)))

theorem WellFormed.hasAny_iff_of_le (hwf : t.WellFormed) (hle : t ≤ t')
    (hi : t.IssuedList i.args) : t'.HasAny reason i ↔ t.HasAny reason i := by
  unfold HasAny
  rw [hi.args_eq hle]
  exact exists_congr fun a => and_congr_right fun ha =>
    hwf.occurs_iff_of_le hle (hwf.issued_of_mem_typeList ha)

end Interner

/-! ## Expansion -/

namespace Substitution

open Interner

variable {s : Substitution} {t : Interner} {x : TypeId} {reason : AnyReason}

/-- An `Any` for this reason occurs in what some parameter is bound to. -/
def Supplies (s : Substitution) (t : Interner) (reason : AnyReason) : Prop :=
  ∃ p value, s.get? p = some value ∧ t.Occurs value (.any reason)

omit [Digest TypeData] in
/-- Each element has been made of an element. -/
theorem exists_source_of_elements {f : TypeId → Expanding TypeId}
    [∀ a flag, Grows ((f a).run flag)] {es : List (Element TypeId)} {flag : Bool}
    {r : List (Element TypeId) × Bool} (h : t.Finds ((mapElements f es).run flag) r)
    {e' : Element TypeId} (he' : e' ∈ r.1) :
    ∃ e ∈ es, ∃ flag flag', t.Finds ((f e.item).run flag) (e'.item, flag') := by
  have hsteps := forall₂_of_finds_mapElements (P := fun a b => ∃ flag flag',
    t.Finds ((f a).run flag) (b, flag')) (fun e _ flag r hr => ⟨flag, r.2, hr⟩) h
  obtain ⟨e, he, -, hee'⟩ := exists_of_mem_right hsteps he'
  exact ⟨e, he, hee'⟩

/-- One level: where the parts bring in no `Any` of their own, neither does the whole. -/
theorem occurs_of_expandOnce (hwf : t.WellFormed) (hroom : t.HasRoom) {levels : Nat} {flag : Bool}
    {r : TypeId × Bool}
    (hpart : ∀ c ∈ t.children x, ∀ flag b, t.Finds ((s.expand levels c).run flag) b →
      t.Occurs b.1 (.any reason) → t.Occurs c (.any reason) ∨ s.Supplies t reason)
    (h : t.Finds ((s.expandOnce levels t x).run flag) r) (hany : t.Occurs r.1 (.any reason)) :
    t.Occurs x (.any reason) ∨ s.Supplies t reason := by
  have hstay : t.Finds (pure (x, flag) : Interning (TypeId × Bool)) r →
      t.Occurs x (.any reason) ∨ s.Supplies t reason := by
    intro hsame
    rw [hsame.of_pure] at hany
    exact .inl hany
  -- an `Any` in what has been made of the parts
  have hparts : ∀ c ∈ t.children x, ∀ b, (∃ flag flag',
      t.Finds ((s.expand levels c).run flag) (b, flag')) → t.Occurs b (.any reason) →
      t.Occurs x (.any reason) ∨ s.Supplies t reason := by
    rintro c hc b ⟨flag, flag', hb⟩ hany
    exact (hpart c hc flag _ hb hany).imp_left fun h => h.head hc
  cases hdata : t.lookup x with
  | none =>
    unfold expandOnce at h
    rw [hdata] at h
    exact hstay h
  | some data =>
    rw [children_of_lookup hdata] at hparts
    cases data with
    | never | any _ =>
      unfold expandOnce at h
      rw [hdata] at h
      exact hstay h
    | param p =>
      rw [expandOnce_param hdata] at h
      rw [h.of_pure] at hany
      dsimp only at hany
      cases hbound : s.get? p.id with
      | none =>
        rw [hbound] at hany
        exact .inl hany
      | some value =>
        rw [hbound] at hany
        exact .inr ⟨p.id, value, hbound, hany⟩
    | inst i =>
      obtain ⟨j, hdata', -, hargs⟩ := finds_expandInst hwf hroom h hdata
      obtain ⟨b, hb, hany⟩ := exists_part_of_occurs hdata' (by simp) hany
      obtain ⟨c, hc, hcb⟩ := exists_of_mem_right hargs.mapM_run hb
      exact hparts c hc b hcb hany
    | tuple list =>
      obtain ⟨list', hdata', hes⟩ := finds_expandTuple hwf hroom h hdata
      obtain ⟨b, hb, hany⟩ := exists_part_of_occurs hdata' (by simp) hany
      obtain ⟨e', he', rfl⟩ := List.mem_map.mp hb
      obtain ⟨e, he, hee'⟩ := exists_source_of_elements hes he'
      exact hparts e.item (List.mem_map_of_mem he) e'.item hee' hany
    | union list =>
      rw [expandOnce_union hdata, StateT.run_bind] at h
      obtain ⟨⟨rs, flag'⟩, hrs, h⟩ := h.of_bind
      dsimp only at h
      split at h
      · -- the handle has been kept
        rw [h.of_pure] at hany
        exact .inl hany
      · obtain ⟨b, hb, hany⟩ := occurs_of_finds_union hwf hroom h.of_lift.1 hany
        obtain ⟨c, hc, hcb⟩ := exists_of_mem_right hrs.mapM_run hb
        exact hparts c hc b hcb hany

/-- An `Any` in an expanded type occurs in the type before or in what is bound, unless it marks
what lies deeper than `levels`. -/
theorem occurs_of_expand (hwf : t.WellFormed) (hroom : t.HasRoom) {levels : Nat} {flag : Bool}
    {r : TypeId × Bool} (hdeep : reason = .fromError → ¬ t.Deep levels x)
    (h : t.Finds ((s.expand levels x).run flag) r) (hany : t.Occurs r.1 (.any reason)) :
    t.Occurs x (.any reason) ∨ s.Supplies t reason := by
  induction levels generalizing x flag r with
  | zero =>
    unfold expand at h
    split at h
    · rw [h.of_pure] at hany
      exact .inl hany
    · -- the mark itself
      rename_i hintrinsic
      have hrun : t.Finds (pure (.any .fromError, true) : Interning (TypeId × Bool)) r := h
      rw [hrun.of_pure] at hany
      exact absurd (Bool.eq_false_iff.mpr hintrinsic) (hdeep (eq_of_occurs_any hany))
  | succ levels ih =>
    -- a type that needs no table is expanded to itself
    cases hintrinsic : x.isIntrinsic with
    | true =>
      rw [expand_of_intrinsic hintrinsic] at h
      rw [h.of_pure] at hany
      exact .inl hany
    | false =>
      rw [expand_succ hintrinsic] at h
      refine occurs_of_expandOnce hwf hroom ?_ h.of_read hany
      exact fun c hc flag b hb => ih (fun heq hdeep' => hdeep heq ⟨c, hc, hdeep'⟩) hb

/-- The same of the arguments of an instance. -/
theorem hasAny_of_applyInstance (hwf : t.WellFormed) (hroom : t.HasRoom) {i j : Instance}
    (hi : t.IssuedList i.args)
    (hdeep : reason = .fromError → ∀ a ∈ t.args i, ¬ t.Deep Limits.expansion a)
    (h : t.Finds (s.applyInstance i) j) (hany : t.HasAny reason j) :
    t.HasAny reason i ∨ s.Supplies t reason := by
  unfold applyInstance at h
  split at h
  · rw [h.of_pure] at hany
    exact .inl hany
  · rw [map_eq_pure_bind] at h
    obtain ⟨⟨j', flag⟩, hj, h⟩ := h.of_bind
    obtain rfl := h.of_pure
    obtain ⟨-, -, hargs⟩ := finds_mapInstance hi hj
    obtain ⟨b, hb, hany⟩ := hany
    obtain ⟨a, ha, flag₁, flag₂, hab⟩ := exists_of_mem_right hargs.mapM_run hb
    exact (occurs_of_expand hwf hroom (fun heq => hdeep heq a ha) hab hany).imp_left
      fun h => ⟨a, ha, h⟩

/-- The same of the items of a tuple. -/
theorem occurs_of_applyElements (hwf : t.WellFormed) (hroom : t.HasRoom)
    {es es' : List (Element TypeId)}
    (hdeep : reason = .fromError → ∀ e ∈ es, ¬ t.Deep Limits.expansion e.item)
    (h : t.Finds (s.applyElements es) es') {e' : Element TypeId} (he' : e' ∈ es')
    (hany : t.Occurs e'.item (.any reason)) :
    (∃ e ∈ es, t.Occurs e.item (.any reason)) ∨ s.Supplies t reason := by
  unfold applyElements at h
  rw [map_eq_pure_bind] at h
  obtain ⟨⟨es', flag⟩, hes, h⟩ := h.of_bind
  obtain rfl := h.of_pure
  obtain ⟨e, he, flag₁, flag₂, hee'⟩ := exists_source_of_elements hes he'
  exact (occurs_of_expand hwf hroom (fun heq => hdeep heq e he) hee' hany).imp_left
    fun h => ⟨e, he, h⟩

end Substitution

end

/-! ## Mapping -/

namespace Hierarchy

open Interner

variable {h h' : Hierarchy} {t t' : Interner} {i : Instance} {c target : ClassId}
  {reason : AnyReason} {limit : Option Nat}

/-- The types that base edges and tuple shapes are made of. -/
def ingredients (h : Hierarchy) : List TypeId :=
  h.classes.classes.flatMap fun info =>
    info.bases.flatMap h.types.args ++
      info.shape.elim [] fun shape => shape.elements.map Element.item

section

variable [Digest TypeData]

/-- In base edges and tuple shapes no `Any` for this reason occurs. -/
def LacksAny (h : Hierarchy) (reason : AnyReason) : Prop :=
  ∀ x ∈ h.ingredients, ¬ h.types.Occurs x (.any reason)

instance decidableLacksAny (h : Hierarchy) (reason : AnyReason) : Decidable (h.LacksAny reason) :=
  inferInstanceAs (Decidable (∀ x ∈ h.ingredients, ¬ h.types.Occurs x (.any reason)))

/-- Base edges and tuple shapes stay above the limit of expansion. -/
def AboveLimit (h : Hierarchy) : Prop :=
  ∀ x ∈ h.ingredients, ¬ h.types.Deep Limits.expansion x

instance decidableAboveLimit (h : Hierarchy) : Decidable h.AboveLimit :=
  inferInstanceAs (Decidable (∀ x ∈ h.ingredients, ¬ h.types.Deep Limits.expansion x))

omit [Digest TypeData] in
theorem mem_ingredients_of_base {base : Instance} {x : TypeId} (hbase : base ∈ h.classes.bases c)
    (hx : x ∈ h.types.args base) : x ∈ h.ingredients := by
  obtain ⟨info, hinfo, hmem⟩ := Registry.get?_of_mem_bases hbase
  exact List.mem_flatMap.mpr ⟨info, Registry.mem_classes_of_get? hinfo,
    List.mem_append_left _ (List.mem_flatMap.mpr ⟨base, hmem, hx⟩)⟩

omit [Digest TypeData] in
theorem mem_ingredients_of_shape {shape : TupleShape} {e : Element TypeId}
    (hshape : h.classes.shape? c = some shape) (he : e ∈ shape.elements) :
    e.item ∈ h.ingredients := by
  obtain ⟨info, hinfo, hdeclared⟩ := Option.bind_eq_some_iff.mp hshape
  refine List.mem_flatMap.mpr ⟨info, Registry.mem_classes_of_get? hinfo,
    List.mem_append_right _ ?_⟩
  rw [hdeclared]
  exact List.mem_map_of_mem he

/-- An instance of `c` in which no `Any` for this reason occurs, as long as the tables have
room. -/
def Without (reason : AnyReason) (c : ClassId) (i : Instance) (t : Interner) : Prop :=
  i.head = c ∧ t.IssuedList i.args ∧ (t.HasRoom → ¬ t.HasAny reason i)

/-- What an instance binds its parameters to are its arguments. -/
theorem hasAny_of_supplies {m : Mapper} (hwf : t.WellFormed) (hle : t ≤ t')
    (h : (m.environment t i).Supplies t' reason) : t.HasAny reason i := by
  obtain ⟨p, value, hvalue, hany⟩ := h
  have hmem : value ∈ t.args i := Substitution.mem_of_get?_ofArgs hvalue
  exact ⟨value, hmem, (hwf.occurs_iff_of_le hle (hwf.issued_of_mem_typeList hmem)).mp hany⟩

namespace Sound

variable (hs : h.Sound) (hlacks : h.LacksAny reason)
  (habove : reason = .fromError → h.AboveLimit)

include hs hlacks habove

/-- Base edges bring in no `Any`. -/
theorem handsOn_without : (h.mapperUpTo limit).HandsOn (Without reason) h.types where
  lasting c i t t' hwf hle := by
    rintro ⟨hhead, hissued, hno⟩
    refine ⟨hhead, hissued.of_le hle, fun hroom hany => ?_⟩
    exact hno (hroom.of_le hle) ((hwf.hasAny_iff_of_le hle hissued).mp hany)
  head hj := hj.1
  issued hj := hj.2.1
  climb := by
    rintro c j base t t' hle hwf hle' hwf' ⟨rfl, hissued, hno⟩ hbase
    have hbase' : base ∈ h.classes.bases j.head := hbase
    have hedge := hs.bases_issued j.head base hbase'
    have hle₁ := Interner.le_trans hle hle'
    refine (Substitution.repeatable_applyInstance hwf'
      ((Mapper.issued_environment hwf j).of_le hle') (hedge.of_le hle₁)).mono ?_
    rintro r t'' hle'' hwf'' hsettled ⟨hhead, hr, -⟩
    have hle₂ := Interner.le_trans hle₁ hle''
    refine ⟨hhead, hr, fun hroom hany => ?_⟩
    -- from the edge or from the instance
    have hdeep : reason = .fromError → ∀ a ∈ t''.args base, ¬ t''.Deep Limits.expansion a := by
      intro heq a ha
      rw [hedge.args_eq hle₂] at ha
      rw [hs.wellFormed.deep_iff_of_le hle₂ (hs.wellFormed.issued_of_mem_typeList ha)]
      exact habove heq a (mem_ingredients_of_base hbase' ha)
    rcases Substitution.hasAny_of_applyInstance hwf'' hroom (hedge.of_le hle₂) hdeep
      (hsettled.finds hwf'') hany with hany | hsupplies
    · obtain ⟨a, ha, hany⟩ := (hs.wellFormed.hasAny_iff_of_le hle₂ hedge).mp hany
      exact hlacks a (mem_ingredients_of_base hbase' ha) hany
    · exact hno (hroom.of_le (Interner.le_trans hle' hle''))
        (hasAny_of_supplies hwf (Interner.le_trans hle' hle'') hsupplies)

/-- The tuple shape brings in no `Any`. -/
theorem without_viaShape (hle : h.types ≤ t) (hwf : t.WellFormed) (hi : Without reason i.head i t) :
    Repeatable t ((h.mapperUpTo limit).viaShape i) fun mapped t' =>
      ∀ r ∈ mapped, Without reason .tuple r t' := by
  obtain ⟨-, hissued, hno⟩ := hi
  refine hs.repeatable_viaShape hle hwf hissued ?_
  rintro shape hshape r t' hle' hwf' ⟨hhead, hr, -⟩ hsettled
  refine ⟨hhead, hr, fun hroom hany => ?_⟩
  have hitems := hs.shapes_issued i.head shape hshape
  have hle₁ := Interner.le_trans hle hle'
  -- from an item that has been joined, and there from the shape or from the instance
  obtain ⟨elements, helements, hfallback⟩ := (hsettled.finds hwf').of_bind
  obtain ⟨-, -, joined, hargs, hjoined⟩ := finds_tupleFallback hfallback
  obtain ⟨a, ha, hany⟩ := hany
  rw [hargs] at ha
  obtain rfl := List.mem_singleton.mp ha
  obtain ⟨m, hm, hany⟩ := occurs_of_finds_union hwf' hroom hjoined hany
  obtain ⟨e', he', rfl⟩ := List.mem_map.mp hm
  have hdeep : reason = .fromError → ∀ e ∈ shape.elements,
      ¬ t'.Deep Limits.expansion e.item := by
    intro heq e he
    rw [hs.wellFormed.deep_iff_of_le hle₁ (hitems e he)]
    exact habove heq e.item (mem_ingredients_of_shape hshape he)
  rcases Substitution.occurs_of_applyElements hwf' hroom hdeep helements he' hany with
    ⟨e, he, hany⟩ | hsupplies
  · exact hlacks e.item (mem_ingredients_of_shape hshape he)
      ((hs.wellFormed.occurs_iff_of_le hle₁ (hitems e he)).mp hany)
  · exact hno (hroom.of_le hle') (hasAny_of_supplies hwf hle' hsupplies)

/-- Neither does mapping, if a class that is out of reach is not in question or the reason is not
an error. -/
theorem without_oneThenAll (hi : Without reason i.head i h.types)
    (hreach : reason = .fromError → h.classes.view.paths limit i.head target ≠ []) :
    Repeatable h.types (oneThenAll (h.mapperUpTo limit) i target) fun r t =>
      Without reason target r.1 t ∧ Mapper.AllOf (Without reason target) r.2 t := by
  have hk : (h.mapperUpTo limit).HandsOn (Without reason) h.types :=
    hs.handsOn_without hlacks habove
  -- the fallback brings in errors only, and stands for no path at all
  have hunreached : h.classes.view.paths limit i.head target = [] → ∀ t, h.types ≤ t →
      t.WellFormed → Repeatable t ((h.mapperUpTo limit).anyInstance target .fromError)
        (Without reason target) := by
    intro hnone t _ hwf
    refine (repeatable_apply hwf target fun a ha => ?_).mono ?_
    · rw [List.eq_of_mem_replicate ha]
      exact issued_any .fromError
    · rintro r t' _ _ _ ⟨hhead, hissued, hargs⟩
      refine ⟨hhead, hissued, fun _ hany => hreach ?_ hnone⟩
      obtain ⟨a, ha, hany⟩ := hany
      rw [hargs] at ha
      rw [List.eq_of_mem_replicate ha] at hany
      exact eq_of_occurs_any hany
  have hbare : (h.classes.params target).isEmpty = true →
      ∀ t, Without reason target (.bare target) t :=
    fun _ t => ⟨rfl, Nat.zero_le _, fun _ ⟨_, ha, _⟩ => absurd ha List.not_mem_nil⟩
  unfold oneThenAll
  refine Repeatable.bind (hk.supertype h.types.le_refl hs.wellFormed hi hunreached hbare ?_) ?_
  · rintro rfl
    exact hs.without_viaShape hlacks habove h.types.le_refl hs.wellFormed hi
  · intro one t hle hwf _ hone
    refine (hk.all hle hwf (hk.lasting i.head i h.types t hs.wellFormed hle hi) hunreached).bind ?_
    intro answers t' hle' hwf' _ hanswers
    exact .pure hwf' ⟨hk.lasting target one t t' hwf hle' hone, hanswers⟩

end Sound

/-- A class out of reach, with parameters: each of its arguments is an error. -/
theorem hasAny_anyInstance {m : Mapper} (hparams : m.view.params target ≠ []) {r : Instance}
    (h : t.Finds (m.anyInstance target reason) r) : t.HasAny reason r := by
  obtain ⟨-, -, hargs⟩ := h.apply
  refine ⟨.any reason, ?_, .refl⟩
  rw [hargs]
  exact List.mem_replicate.mpr ⟨fun hzero => hparams (List.length_eq_zero_iff.mp hzero), rfl⟩

/-- A class out of reach is no tuple class that a shape would decide. -/
theorem Reachable.supertype_run_of_not_ancestor (hr : Reachable h) (hne : i.head ≠ target)
    (hnot : ¬ h.classes.Ancestor i.head target) :
    (h.mapper.supertype i target).run h.types = (h.mapper.viaEdges i target).run h.types := by
  refine supertype_run_of_not none (fun shape hshape => ?_) hne
  obtain rfl := hshape.target_tuple
  exact hnot (hr.edited.ancestor_of_shape hshape.declared)

/-- Mapping to a class out of reach comes to error arguments, in the one answer and in all. -/
theorem Reachable.hasAny_of_not_ancestor (hr : Reachable h) (hne : i.head ≠ target)
    (hparams : h.classes.params target ≠ [])
    (hnot : ¬ h.classes.Ancestor i.head target) {one : Instance} {answers : List Instance}
    (hrun : (oneThenAll h.mapper i target).run h.types = ((one, answers), t)) :
    t.HasAny .fromError one ∧ Mapper.AllOf (fun r t => t.HasAny .fromError r) answers t := by
  have hs := hr.sound
  obtain ⟨t₁, hone, hall⟩ := exists_of_oneThenAll_run hrun
  rw [hr.supertype_run_of_not_ancestor hne hnot] at hone
  rw [all_of_ne hne] at hall
  have hpath : ¬ ∃ p, h.mapper.view.EdgePath target i.head p :=
    fun hpath => hnot (edgePath_iff_ancestor.mp hpath)
  have hvia : Repeatable h.types (h.mapper.viaEdges i target)
      fun r t' => Settled t' (h.mapper.anyInstance target .fromError) r := by
    unfold Mapper.viaEdges
    rw [if_neg (show ¬ (h.mapper.view.params target).isEmpty = true from
      fun hnil => hparams (List.isEmpty_iff.mp hnil))]
    refine (Mapper.repeatable_supertypes_of_no_path rfl hs.wellFormed hpath).bind ?_
    rintro rs t' _ hwf' _ ⟨r, rfl, hr⟩
    exact .pure hwf' hr
  obtain ⟨-, hwf₁, -, hsettled⟩ := hvia.of_run hone
  obtain ⟨hle, hwf, -, r, rfl, hsettled'⟩ :=
    (Mapper.repeatable_supertypes_of_no_path rfl hwf₁ hpath).of_run hall
  exact ⟨hasAny_anyInstance hparams ((hsettled.of_le hle).finds hwf),
    Mapper.allOf_singleton (hasAny_anyInstance hparams (hsettled'.finds hwf))⟩

/-- In a reachable hierarchy in whose base edges and tuple shapes no error occurs and which stay
above the limit of expansion, an instance without an error is seen as another class that has
parameters with an error in an argument just if that class is no ancestor. An `Any` for want of
an annotation is never brought in, whatever the length of the paths: an instance that has been
reached on the way has an edge to the class that is next. The tables must not run out of handles
on the way, since the handle of last resort is an error. -/
theorem Reachable.any_origins (hr : Reachable h) (hi : h.Fits c i h.types) (limit : Option Nat)
    (target : ClassId) {one : Instance} {answers : List Instance}
    (hrun : (oneThenAll (h.mapperUpTo limit) i target).run h.types = ((one, answers), t))
    (hroom : t.HasRoom) :
    (limit = none → c ≠ target → h.classes.params target ≠ [] → h.LacksAny .fromError →
      h.AboveLimit → ¬ h.types.HasAny .fromError i →
      (t.HasAny .fromError one ↔ ¬ h.classes.Ancestor c target) ∧
        ((∃ r ∈ answers, t.HasAny .fromError r) ↔ ¬ h.classes.Ancestor c target)) ∧
    (h.LacksAny .unannotated → ¬ h.types.HasAny .unannotated i →
      ¬ t.HasAny .unannotated one ∧ ∀ r ∈ answers, ¬ t.HasAny .unannotated r) ∧
    ∀ front d rest, front ++ d :: rest ∈ h.classes.view.paths limit c target →
      ∀ t', h.types ≤ t' → t'.WellFormed →
        ∀ j ∈ (((h.mapperUpTo limit).along i front).run t').1,
          ∃ base ∈ h.classes.bases j.head, base.head = d := by
  have hs := hr.sound
  obtain rfl := hi.1
  -- where no class out of reach is in question, nothing has been brought in
  have hwithout : ∀ {reason}, h.LacksAny reason → (reason = .fromError → h.AboveLimit) →
      ¬ h.types.HasAny reason i →
      (reason = .fromError → h.classes.view.paths limit i.head target ≠ []) →
      ¬ t.HasAny reason one ∧ answers ≠ [] ∧ ∀ r ∈ answers, ¬ t.HasAny reason r := by
    intro reason hlacks habove hno hreach
    have hi' : Without reason i.head i h.types := ⟨rfl, hi.2.1, fun _ => hno⟩
    obtain ⟨-, -, -, hone, hne, hall⟩ :=
      (hs.without_oneThenAll hlacks habove hi' hreach).of_run hrun
    exact ⟨hone.2.2 hroom, hne, fun r hr => (hall r hr).2.2 hroom⟩
  refine ⟨?_, ?_, ?_⟩
  · rintro rfl hne hparams hlacks habove hno
    by_cases hancestor : h.classes.Ancestor i.head target
    · have hpaths : h.classes.view.paths none i.head target ≠ [] :=
        (ClassView.allPaths_ne_nil_iff hs.acyclic_view).mpr hancestor
      obtain ⟨hone, -, hall⟩ := hwithout hlacks (fun _ => habove) hno fun _ => hpaths
      refine ⟨iff_of_false hone (not_not_intro hancestor), ?_⟩
      exact iff_of_false (fun ⟨r, hr, hany⟩ => hall r hr hany) (not_not_intro hancestor)
    · obtain ⟨hone, hne', hall⟩ := hr.hasAny_of_not_ancestor hne hparams hancestor hrun
      refine ⟨iff_of_true hone hancestor, iff_of_true ?_ hancestor⟩
      obtain ⟨r, hr⟩ := List.exists_mem_of_ne_nil answers hne'
      exact ⟨r, hr, hall r hr⟩
  · intro hlacks hno
    obtain ⟨hone, -, hall⟩ := hwithout hlacks nofun hno nofun
    exact ⟨hone, hall⟩
  · intro front d rest hmem t' hle hwf
    have hk := (hs.keeps_fits limit target).toHandsOn
    have hi' := hk.lasting i.head i h.types t' hs.wellFormed hle hi
    exact hk.exists_edge_of_along hle hwf hi' (ClassView.leads_of_mem_paths hmem)

/-- What the instance of a class with the argument `T` is as a class: the one answer and all. -/
def boxSeen (c target : ClassId) : (Instance × List Instance) × Interner :=
  (oneThenAll (box.mapperUpTo none) ⟨c, ⟨1⟩⟩ target).run box.types

end

/-- `Box[T]` is `tuple[T]`, and there an edge leads on to `object`. No tuple is known to be a
box: that is `Box[Any]`, the `Any` being an error. -/
theorem box_any_origins :
    (box.classes.Ancestor ⟨3⟩ .tuple ∧
      ¬ (boxSeen ⟨3⟩ .tuple).2.HasAny .fromError (boxSeen ⟨3⟩ .tuple).1.1 ∧
      ∀ r ∈ (boxSeen ⟨3⟩ .tuple).1.2, ¬ (boxSeen ⟨3⟩ .tuple).2.HasAny .unannotated r) ∧
    (¬ box.classes.Ancestor .tuple ⟨3⟩ ∧
      ∃ r ∈ (boxSeen .tuple ⟨3⟩).1.2, (boxSeen .tuple ⟨3⟩).2.HasAny .fromError r) ∧
    ∀ j ∈ (((box.mapperUpTo none).along ⟨⟨3⟩, ⟨1⟩⟩ [.tuple]).run box.types).1,
      ∃ base ∈ box.classes.bases j.head, base.head = .object := by
  have hbox : box.Fits ⟨3⟩ ⟨⟨3⟩, ⟨1⟩⟩ box.types := ⟨rfl, Nat.le_refl 1, by decide +kernel⟩
  have htuple : box.Fits .tuple ⟨.tuple, ⟨1⟩⟩ box.types :=
    ⟨rfl, Nat.le_refl 1, by decide +kernel⟩
  have hlacks : ∀ reason, box.LacksAny reason := by
    intro reason
    cases reason <;> decide +kernel
  have habove : box.AboveLimit := by decide +kernel
  have hrun : ∀ c target, (oneThenAll (box.mapperUpTo none) ⟨c, ⟨1⟩⟩ target).run box.types =
      (((boxSeen c target).1.1, (boxSeen c target).1.2), (boxSeen c target).2) := fun _ _ => rfl
  have hancestor : box.classes.Ancestor ⟨3⟩ .tuple := Registry.derives_iff.mp (by decide +kernel)
  have hnot : ¬ box.classes.Ancestor .tuple ⟨3⟩ :=
    fun hancestor => absurd (Registry.derives_iff.mpr hancestor) (by decide +kernel)
  -- up to an ancestor, down to a class out of reach, and up a longer path
  obtain ⟨herror, hunannotated, -⟩ := reachable_box.any_origins hbox none .tuple (hrun _ _)
    (hasRoom_of_size (by decide +kernel))
  obtain ⟨hone, -⟩ := herror rfl (by decide) (by decide +kernel) (hlacks .fromError) habove
    (by decide +kernel)
  obtain ⟨-, hall⟩ := hunannotated (hlacks .unannotated) (by decide +kernel)
  obtain ⟨herror', -, -⟩ := reachable_box.any_origins htuple none ⟨3⟩ (hrun _ _)
    (hasRoom_of_size (by decide +kernel))
  obtain ⟨-, hall'⟩ := herror' rfl (by decide) (by decide +kernel) (hlacks .fromError) habove
    (by decide +kernel)
  obtain ⟨-, -, hedges⟩ := reachable_box.any_origins hbox none .object (hrun _ _)
    (hasRoom_of_size (by decide +kernel))
  exact ⟨⟨hancestor, fun hany => hone.mp hany hancestor, hall⟩, ⟨hnot, hall'.mpr hnot⟩,
    hedges [.tuple] .object [] (by decide +kernel) box.types box.types.le_refl
      reachable_box.sound.wellFormed⟩

end Hierarchy

end Supertypes
