import Supertypes.Proofs.Outcomes

/-!
# One substitution after another

- `Substitution.becomes_of_unites`: what a union becomes is the union of what has been joined,
  each of them replaced before. Where the union is an `Any`, this needs that no parameter gives
  way to an `Any` that comes before it and would take its place (`Substitution.NoAnyBefore`).
- `Substitution.Becomes.compose`: replacing parameters first by some types and then in these
  types is replacing them by what the types become. `Substitution.BecomesInstance.compose` says
  so of instances.
-/

namespace Supertypes.Substitution

open Interner

variable {s env env' : Substitution} {t : Interner} {x y z : TypeId}

/-- No parameter is bound to an `Any`. -/
def NoAny (s : Substitution) : Prop :=
  ∀ p value, s.get? p = some value → value.isAny = false

theorem noAny_ofArgs {params : List Param} {args : List TypeId}
    (hargs : ∀ a ∈ args, a.isAny = false) : (ofArgs params args).NoAny :=
  fun _ value hvalue => hargs value (mem_of_get?_ofArgs hvalue)

/-- No parameter is bound to an `Any` that comes before `y`. -/
def NoAnyBefore (s : Substitution) (y : TypeId) : Prop :=
  ∀ p value, s.get? p = some value → value.isAny = true → y.word ≤ value.word

theorem NoAny.noAnyBefore (hany : s.NoAny) (y : TypeId) : s.NoAnyBefore y := by
  intro p value hvalue hvany
  rw [hany p value hvalue] at hvany
  cases hvany

/-- The explicit `Any` is the first of all. -/
theorem noAnyBefore_explicit (s : Substitution) : s.NoAnyBefore (.any .explicit) := by
  intro p value _ hvany
  obtain ⟨reason, rfl⟩ := exists_any_of_isAny hvany
  cases reason <;> decide

variable [Digest TypeData]

/-- An `Any` that some other type becomes is bound to a parameter, unions apart. -/
theorem Becomes.exists_bound (h : s.Becomes t x y)
    (hunion : ∀ list, t.lookup x ≠ some (.union list)) (hx : x.isAny = false)
    (hy : y.isAny = true) : ∃ p, s.get? p = some y := by
  -- a structure of the tables is no `Any`
  have hdata : ∀ {data : TypeData}, t.lookup y = some data → data ≠ .never →
      ¬ ∀ reason, data ≠ .any reason := by
    intro data hdata hnever hno
    rcases data_of_intrinsic (isIntrinsic_of_isAny hy) hdata with heq | ⟨reason, heq⟩
    · exact hnever heq
    · exact hno reason heq
  cases h with
  | leaf _ =>
    rw [hx] at hy
    cases hy
  | @param _ p _ =>
    cases hbound : s.get? p.id with
    | none =>
      rw [hbound, Option.getD_none, hx] at hy
      cases hy
    | some value => exact ⟨p.id, hbound⟩
  | inst _ hdata' _ _ _ => exact absurd (by simp) (hdata hdata' (by simp))
  | tuple _ hdata' _ _ => exact absurd (by simp) (hdata hdata' (by simp))
  | union hdata' _ _ _ => exact absurd hdata' (hunion _)

/-! ## Unions -/

/-- The images of all that the types contribute. -/
def openedImages (t : Interner) (image : TypeId → TypeId) (rs : List TypeId) : List TypeId :=
  rs.flatMap fun r => (t.membersOf r).map image

theorem contributes_openedImages {image : TypeId → TypeId} {rs : List TypeId} :
    t.Contributes (openedImages t image rs) y ↔
      ∃ x, t.Contributes rs x ∧ y ∈ t.membersOf (image x) := by
  unfold openedImages
  rw [contributes_flatMap]
  constructor
  · rintro ⟨r, hr, hy⟩
    obtain ⟨x, hx, hy⟩ := contributes_map.mp hy
    exact ⟨x, ⟨r, hr, hx⟩, hy⟩
  · rintro ⟨x, ⟨r, hr, hx⟩, hy⟩
    exact ⟨r, hr, contributes_map.mpr ⟨x, hx, hy⟩⟩

section Unions

variable {image : TypeId → TypeId} {rs : List TypeId} (hs : s.Regular t) (hany : s.NoAnyBefore y)
  (himage : ∀ x y, s.Becomes t x y → y = image x) (hrs : ∀ r ∈ rs, t.Proper .anything r)
  (hstep : ∀ r ∈ rs, s.Becomes t r (image r))

include himage

theorem image_of_intrinsic (hx : x.isIntrinsic = true) : image x = x :=
  (himage x x (.leaf hx)).symm

include hrs hstep

/-- What is contributed becomes its image. -/
theorem becomes_of_contributes (hx : t.Contributes rs x) : s.Becomes t x (image x) := by
  obtain ⟨r, hr, hx⟩ := hx
  rcases (hrs r hr).membersOf_cases with ⟨-, hself⟩ | ⟨list, hdata, hlist, -⟩
  · rw [hself] at hx
    rw [List.mem_singleton.mp hx]
    exact hstep r hr
  · rw [hlist] at hx
    obtain ⟨f, -, -, hf⟩ := (hstep r hr).turns hdata
    rw [← himage x (f x) (hf x hx)]
    exact hf x hx

include hs

/-- The union of the images is the union of the images of all members. -/
theorem unites_openedImages (hz : t.Unites (rs.map image) z) :
    t.Unites (openedImages t image rs) z := by
  refine .flatMap (fun r hr => ?_) hz
  rcases (hrs r hr).membersOf_cases with ⟨-, hself⟩ | ⟨list, hdata, hlist, -⟩
  · rw [hself]
    exact .self ((hstep r hr).proper hs (hrs r hr))
  · obtain ⟨f, hunites, -, hf⟩ := (hstep r hr).turns hdata
    have hsame : (t.typeList list).map f = (t.typeList list).map image :=
      List.map_congr_left fun m hm => himage m (f m) (hf m hm)
    rwa [hlist, ← hsame]

include hany

/-- An `Any` stays the first of all, for what else becomes one does not come before it. -/
theorem unites_openedImages_of_any (hy : t.Unites rs y) (hyany : y.isAny = true) :
    t.Unites (openedImages t image rs) y := by
  obtain ⟨hmem, hfirst⟩ := hy.of_any hyany
  have hself := image_of_intrinsic himage (isIntrinsic_of_isAny hyany)
  refine .any hyany (contributes_openedImages.mpr ⟨y, hmem, ?_⟩) fun m hm hm' => ?_
  · rw [hself]
    exact (mem_membersOf_of_isAny hyany).mpr rfl
  · obtain ⟨x, hx, hm⟩ := contributes_openedImages.mp hm
    have hbecomes := becomes_of_contributes himage hrs hstep hx
    obtain ⟨r, hr, hxr⟩ := hx
    obtain ⟨hproper, hunion⟩ := (hrs r hr).of_mem_membersOf hxr
    have heq := (hbecomes.proper hs hproper).eq_of_mem_membersOf hm hm'
    cases hxany : x.isAny with
    | true =>
      rw [heq, image_of_intrinsic himage (isIntrinsic_of_isAny hxany)]
      exact hfirst x ⟨r, hr, hxr⟩ hxany
    | false =>
      rw [heq] at hm' ⊢
      obtain ⟨p, hbound⟩ := hbecomes.exists_bound hunion hxany hm'
      exact hany p _ hbound hm'

omit hs hany hrs hstep in
/-- What is contributed comes from the members of the union, `Never` aside. -/
theorem contributes_openedImages_iff (hparts : ∀ x, x ≠ .never → (x ∈ t.membersOf y ↔
    t.Contributes rs x)) {m : TypeId} (hm : m ≠ .never) :
    t.Contributes (openedImages t image rs) m ↔ t.Contributes ((t.membersOf y).map image) m := by
  rw [contributes_openedImages, contributes_map]
  refine exists_congr fun x => and_congr_left fun hmem => ?_
  have hx : x ≠ .never := by
    rintro rfl
    rw [image_of_intrinsic himage rfl, membersOf_of_intrinsic rfl] at hmem
    exact hm (List.mem_singleton.mp hmem)
  exact (hparts x hx).symm

omit hs hany in
theorem becomes_of_mem_membersOf (hparts : ∀ x, x ≠ .never → (x ∈ t.membersOf y ↔
    t.Contributes rs x)) (hx : x ∈ t.membersOf y) : s.Becomes t x (image x) := by
  by_cases hnever : x = .never
  · subst hnever
    rw [image_of_intrinsic himage rfl]
    exact .leaf rfl
  · exact becomes_of_contributes himage hrs hstep ((hparts x hnever).mp hx)

end Unions

/-- What the union of some types becomes is the union of what the types become, as long as no
`Any` comes before a union that is one. -/
theorem becomes_of_unites (hwf : t.WellFormed) (hs : s.Regular t)
    (hany : y.isAny = true → s.NoAnyBefore y) {rs rs' : List TypeId}
    (hrs : ∀ r ∈ rs, t.Proper .anything r) (hstep : List.Forall₂ (s.Becomes t) rs rs')
    (hy : t.Unites rs y) (hy' : t.Proper .anything y) (hz : t.Unites rs' z)
    (hz' : t.Proper .anything z) : s.Becomes t y z := by
  obtain ⟨image, himage⟩ := exists_image hwf s
  obtain ⟨f, rfl, hf⟩ := exists_map_of_becomes hwf hstep
  have hsame : rs.map f = rs.map image :=
    List.map_congr_left fun r hr => himage r (f r) (hf r hr)
  have hf' : ∀ r ∈ rs, s.Becomes t r (image r) := fun r hr => himage r (f r) (hf r hr) ▸ hf r hr
  -- on the right, all is joined that the types on the left contribute
  have hopened := unites_openedImages hs himage hrs hf' (hsame ▸ hz)
  cases hyany : y.isAny with
  | true =>
    have hjoined := unites_openedImages_of_any hs (hany hyany) himage hrs hf' hy hyany
    rw [hopened.unique hwf hz' hy' hjoined]
    exact .leaf (isIntrinsic_of_isAny hyany)
  | false =>
    obtain ⟨-, hparts⟩ := hy.of_not_any hyany
    have hjoined := hopened.congr fun m hm => contributes_openedImages_iff himage hparts hm
    have hmembers : ∀ x ∈ t.membersOf y, s.Becomes t x (image x) := fun x hx =>
      becomes_of_mem_membersOf himage hrs hf' hparts hx
    rcases hy'.membersOf_cases with ⟨-, hself⟩ | ⟨list, hdata, hlist, -⟩
    · rw [hself] at hjoined hmembers
      have hbecomes := hmembers y (List.mem_singleton_self y)
      have hproper := hbecomes.proper hs hy'
      rw [hjoined.unique hwf hz' hproper (.self hproper)]
      exact hbecomes
    · rw [hlist] at hjoined hmembers
      exact .union hdata hjoined hz' hmembers

/-- The same of unions that have been found. -/
theorem becomes_of_finds_union (hwf : t.WellFormed) (hroom : t.HasRoom) (hs : s.Regular t)
    (hany : y.isAny = true → s.NoAnyBefore y) {rs rs' : List TypeId}
    (hrs : ∀ r ∈ rs, t.Proper .anything r) (hstep : List.Forall₂ (s.Becomes t) rs rs')
    (hy : t.Finds (Interner.union rs) y) (hz : t.Finds (Interner.union rs') z) :
    s.Becomes t y z := by
  have hrs' : ∀ r' ∈ rs', t.Proper .anything r' := by
    intro r' hr'
    obtain ⟨r, hr, hstep⟩ := exists_of_mem_right hstep hr'
    exact hstep.proper hs (hrs r hr)
  exact becomes_of_unites hwf hs hany hrs hstep (hy.unites hwf hroom hrs) (hy.proper_union hwf hrs)
    (hz.unites hwf hroom hrs') (hz.proper_union hwf hrs')

/-! ## Composition -/

/-- Replacing parameters first by some types, and then in these types, is replacing them by what
the types become. A parameter that is not bound is a type of its own. -/
theorem Becomes.compose (hwf : t.WellFormed) (hs : s.Regular t) (hany : s.NoAny)
    (henv : env.Regular t) (hx : t.Proper .anything x)
    (hbound : ∀ p, t.Mentions x p → ∀ c, t.lookup c = some (.param p) →
      s.Becomes t ((env.get? p.id).getD c) ((env'.get? p.id).getD c))
    (h : env.Becomes t x y) (h' : env'.Becomes t x z) : s.Becomes t y z := by
  induction h generalizing z with
  | leaf hintrinsic =>
    rw [h'.eq_of_intrinsic hintrinsic]
    exact .leaf hintrinsic
  | @param x p hdata =>
    -- a parameter: what it is bound to has been expanded already
    have hz : z = (env'.get? p.id).getD x := h'.turns hdata
    rw [hz]
    exact hbound p ((mentions_param_iff hdata).mpr rfl) x hdata
  | @inst x y i j f hdata hdata' hhead hargs hf ih =>
    -- the arguments are the same list, mapped in two ways
    obtain ⟨j', f', hdata₂, hhead₂, hargs₂, hf'⟩ := h'.turns hdata
    have hstep : List.Forall₂ (s.Becomes t) (t.args j) (t.args j') := by
      rw [hargs, hargs₂, List.forall₂_map_left_iff, List.forall₂_map_right_iff]
      refine List.forall₂_same.mpr fun a ha => ?_
      have hchild : a ∈ t.children x := by rwa [children_of_lookup hdata]
      exact ih a ha (hx.of_mem_children a hchild)
        (fun p hp => hbound p (mentions_iff.mpr (.inr ⟨a, hchild, hp⟩))) (hf' a ha)
    obtain ⟨g, hmap, hg⟩ := exists_map_of_becomes hwf hstep
    exact .inst hdata' hdata₂ (hhead₂.trans hhead.symm) hmap hg
  | @tuple x y list list' f hdata hdata' hitems hf ih =>
    obtain ⟨list₂, f', hdata₂, hitems₂, hf'⟩ := h'.turns hdata
    have hstep : List.Forall₂ (fun e e' => e.isRest = e'.isRest ∧ s.Becomes t e.item e'.item)
        (t.elementList list') (t.elementList list₂) := by
      rw [hitems, hitems₂, List.forall₂_map_left_iff, List.forall₂_map_right_iff]
      refine List.forall₂_same.mpr fun e he => ⟨rfl, ?_⟩
      have hchild : e.item ∈ t.children x := by
        rw [children_of_lookup hdata]
        exact List.mem_map_of_mem he
      exact ih e he (hx.of_mem_children _ hchild)
        (fun p hp => hbound p (mentions_iff.mpr (.inr ⟨_, hchild, hp⟩))) (hf' e he)
    obtain ⟨g, hmap, hg⟩ := exists_map_of_elements_becomes hwf hstep
    exact .tuple hdata' hdata₂ hmap hg
  | @union x y list f hdata hunites hproper hf ih =>
    obtain ⟨f', hunites₂, hproper₂, hf'⟩ := h'.turns hdata
    have hchild : ∀ m ∈ t.typeList list, m ∈ t.children x := by
      intro m hm
      rwa [children_of_lookup hdata]
    -- the joined members may be joined again, since no bound parameter is an `Any`
    refine becomes_of_unites hwf hs (fun _ => hany.noAnyBefore y) ?_ ?_ hunites hproper hunites₂
      hproper₂
    · intro r hr
      obtain ⟨m, hm, rfl⟩ := List.mem_map.mp hr
      exact (hf m hm).proper henv (hx.of_mem_children m (hchild m hm))
    · rw [List.forall₂_map_left_iff, List.forall₂_map_right_iff]
      refine List.forall₂_same.mpr fun m hm => ?_
      exact ih m hm (hx.of_mem_children m (hchild m hm))
        (fun p hp => hbound p (mentions_iff.mpr (.inr ⟨m, hchild m hm, hp⟩))) (hf' m hm)

/-- The same of the arguments of an instance. -/
theorem BecomesInstance.compose (hwf : t.WellFormed) (hs : s.Regular t) (hany : s.NoAny)
    (henv : env.Regular t) {base r r' : Instance}
    (hbase : t.ProperInstance .anything base)
    (hbound : ∀ a ∈ t.args base, ∀ p, t.Mentions a p → ∃ v v', env.get? p.id = some v ∧
      env'.get? p.id = some v' ∧ s.Becomes t v v')
    (h : env.BecomesInstance t base r) (h' : env'.BecomesInstance t base r') :
    s.BecomesInstance t r r' := by
  refine ⟨h.issued', h'.issued', h'.head.trans h.head.symm, ?_⟩
  obtain ⟨f, hf, hf'⟩ := exists_map_of_becomes hwf h.args
  obtain ⟨g, hg, hg'⟩ := exists_map_of_becomes hwf h'.args
  rw [hf, hg, List.forall₂_map_left_iff, List.forall₂_map_right_iff]
  refine List.forall₂_same.mpr fun a ha => (hf' a ha).compose hwf hs hany henv (hbase.args a ha)
    (fun p hp c _ => ?_) (hg' a ha)
  obtain ⟨v, v', hv, hv', hvv'⟩ := hbound a ha p hp
  rw [hv, hv']
  exact hvv'

end Supertypes.Substitution
