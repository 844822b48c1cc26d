import Supertypes.Proofs.Constructed
import Supertypes.Proofs.GroundAnswers
import Supertypes.Proofs.MappingInStep
import Supertypes.Proofs.Renaming
import Supertypes.Proofs.Substituting

/-!
# The one answer and all answers

- `Hierarchy.Fits`: an instance with as many arguments as its class has parameters.
  `Hierarchy.Sound.keeps_fits` says that base edges lead from such instances to such instances.
- `Hierarchy.DecidedByShape`: what a class is as a tuple is said by its tuple shape, and not by
  its base edges. `Hierarchy.RepeatedByEdge`: a base edge says the same.
- `Hierarchy.RepeatedByEdge.eq_joinedShape`: joining first and expanding afterwards comes to the
  same as expanding first.
- `Hierarchy.Constructed.supertype_first`: the one answer is the first of all answers, unless a
  tuple shape decides that no base edge repeats. `Hierarchy.declaredTwice` is a hierarchy in
  which the two differ.
-/

namespace Supertypes.Hierarchy

open Interner

variable {h : Hierarchy} {t : Interner} {i : Instance} {target c : ClassId}

/-! ## Arity -/

/-- An instance of `c` with an argument for each parameter. -/
def Fits (h : Hierarchy) (c : ClassId) (i : Instance) (t : Interner) : Prop :=
  i.head = c ∧ t.IssuedList i.args ∧ (t.args i).length = (h.classes.params c).length

section

variable [Digest TypeData]

/-- Base edges and error arguments keep the arity. -/
theorem Sound.keeps_fits (hs : h.Sound) (limit : Option Nat) (target : ClassId) :
    (h.mapperUpTo limit).Keeps target h.Fits h.types where
  lasting c i t t' _ hle := by
    rintro ⟨hhead, hissued, hlen⟩
    exact ⟨hhead, hissued.of_le hle, by rw [hissued.args_eq hle, hlen]⟩
  head hj := hj.1
  issued hj := hj.2.1
  climb := by
    rintro c j base t t' hle hwf hle' hwf' ⟨rfl, hissued, -⟩ hbase
    have hbase' : base ∈ h.classes.bases j.head := hbase
    have hedge := hs.bases_issued j.head base hbase'
    have hvalid := hs.bases_valid j.head base hbase'
    have hle'' := Interner.le_trans hle hle'
    have hargs : ∀ a ∈ t.args j, t'.Issued a :=
      fun a ha => (hwf.issued_of_mem_typeList ha).of_le hle'
    refine (Substitution.repeatable_applyInstance hwf' (Substitution.issued_ofArgs hargs)
      (hedge.of_le hle'')).mono ?_
    rintro r t'' _ _ _ ⟨hhead, hr, hexpanded⟩
    refine ⟨hhead, hr, ?_⟩
    rw [← hexpanded.length_eq, hedge.args_eq hle'', hvalid.arity]
  unreached _ hwf := by
    refine (repeatable_apply hwf target fun a ha => ?_).mono ?_
    · rw [List.eq_of_mem_replicate ha]
      exact issued_any .fromError
    · rintro r t'' _ _ _ ⟨hhead, hissued, hargs⟩
      refine ⟨hhead, hissued, ?_⟩
      rw [hargs]
      exact List.length_replicate

/-- There is one instance only of a class without parameters. -/
theorem Fits.eq_bare (hi : h.Fits c i t) (hwf : t.WellFormed)
    (hnullary : (h.classes.params c).isEmpty = true) : i = .bare c := by
  obtain ⟨hhead, hissued, hlen⟩ := hi
  have hnil : t.args i = [] := by
    rw [← List.length_eq_zero_iff, hlen, List.isEmpty_iff.mp hnullary]
    rfl
  exact hwf.instance_inj hissued (Nat.zero_le _) hhead hnil

/-! ## Tuple shapes -/

/-- Seen as a tuple, a class is what `shape` says: it is no tuple itself, and the shape it has
been given is not recursive and has a type parameter in it. -/
structure DecidedByShape (h : Hierarchy) (c target : ClassId) (shape : TupleShape) : Prop where
  target_tuple : target = .tuple
  not_tuple : c ≠ .tuple
  declared : h.classes.shape? c = some shape
  generic : ∃ e ∈ shape.elements, ∃ p, h.types.Mentions e.item p
  not_recursive : shape.isRecursive = false

/-- The items of the shape, expanded for `i` first and joined afterwards. -/
def joinedShape (h : Hierarchy) (i : Instance) (shape : TupleShape) : Interning Instance := do
  let elements ← (h.mapper.environment h.types i).applyElements shape.elements
  tupleFallback .tuple elements

theorem any_mentionsParam_iff {es : List (Element TypeId)} :
    (es.any fun e => t.mentionsParam e.item) = true ↔ ∃ e ∈ es, ∃ p, t.Mentions e.item p := by
  rw [List.any_eq_true]
  exact exists_congr fun e => and_congr_right fun _ => mentionsParam_iff

/-- Looking at the shape in the tables `t`. -/
theorem viaShape_run (m : Mapper) (i : Instance) (t : Interner) :
    (m.viaShape i).run t =
      match m.view.shape? i.head with
      | none => (none, t)
      | some shape =>
        if (!(shape.elements.any fun e => t.mentionsParam e.item) || shape.isRecursive) = true then
          (none, t)
        else
          (some <$> (do
            let elements ← (m.environment t i).applyElements shape.elements
            tupleFallback m.view.tuple elements : Interning Instance)).run t := by
  unfold Mapper.viaShape
  cases m.view.shape? i.head with
  | none => rfl
  | some shape =>
    dsimp only
    split
    · rename_i hskip
      show StateT.run (ite _ _ _) t = _
      rw [if_pos hskip]
      rfl
    · rename_i hskip
      show StateT.run (ite _ _ _) t = _
      rw [if_neg hskip, map_eq_pure_bind, bind_assoc]

theorem DecidedByShape.viaShape_run {shape : TupleShape} (limit : Option Nat)
    (hshape : h.DecidedByShape i.head target shape) :
    ((h.mapperUpTo limit).viaShape i).run h.types =
      (some <$> h.joinedShape i shape).run h.types := by
  have hgeneric := any_mentionsParam_iff.mpr hshape.generic
  have hview : (h.mapperUpTo limit).view.shape? i.head = some shape := hshape.declared
  rw [Hierarchy.viaShape_run, hview]
  dsimp only
  rw [hgeneric, hshape.not_recursive]
  rfl

theorem viaShape_run_of_not (limit : Option Nat)
    (hno : ∀ shape, ¬ h.DecidedByShape i.head .tuple shape) (hhead : i.head ≠ .tuple) :
    ((h.mapperUpTo limit).viaShape i).run h.types = (none, h.types) := by
  rw [viaShape_run]
  cases hshape : (h.mapperUpTo limit).view.shape? i.head with
  | none => rfl
  | some shape =>
    have hskip : (!(shape.elements.any fun e => h.types.mentionsParam e.item) ||
        shape.isRecursive) = true := by
      by_contra hcon
      obtain ⟨hgeneric, hrec⟩ : (shape.elements.any fun e => h.types.mentionsParam e.item) = true ∧
          shape.isRecursive = false := by simpa using hcon
      exact hno shape ⟨rfl, hhead, hshape, any_mentionsParam_iff.mp hgeneric, hrec⟩
    exact if_pos hskip

/-! ## The first of the answers -/

/-- Without a shape that decides the one answer comes by base edges. -/
theorem supertype_run_of_not (limit : Option Nat)
    (hno : ∀ shape, ¬ h.DecidedByShape i.head target shape) (hhead : i.head ≠ target) :
    ((h.mapperUpTo limit).supertype i target).run h.types =
      ((h.mapperUpTo limit).viaEdges i target).run h.types := by
  rw [Mapper.supertype_eq, if_neg hhead]
  split
  · rename_i htuple
    have htuple' : target = .tuple := htuple
    subst htuple'
    rw [StateT.run_bind, viaShape_run_of_not limit hno hhead]
    rfl
  · rfl

/-- One answer, and after that all answers. -/
def oneThenAll (m : Mapper) (i : Instance) (target : ClassId) :
    Interning (Instance × List Instance) := do
  let one ← m.supertype i target
  let answers ← m.all i target
  return (one, answers)

theorem oneThenAll_run (m : Mapper) (i : Instance) (target : ClassId) (t : Interner) :
    ((oneThenAll m i target).run t).1 = (((m.supertype i target).run t).1,
      ((m.all i target).run ((m.supertype i target).run t).2).1) :=
  rfl

/-- The two runs, the second in the tables that the first leaves. -/
theorem exists_of_oneThenAll_run {m : Mapper} {t t' : Interner} {one : Instance}
    {answers : List Instance} (hrun : (oneThenAll m i target).run t = ((one, answers), t')) :
    ∃ t₁, (m.supertype i target).run t = (one, t₁) ∧ (m.all i target).run t₁ = (answers, t') := by
  have hrun' : ((((m.supertype i target).run t).1,
      ((m.all i target).run ((m.supertype i target).run t).2).1),
      ((m.all i target).run ((m.supertype i target).run t).2).2) = ((one, answers), t') := hrun
  obtain ⟨hpair, rfl⟩ := Prod.mk.inj hrun'
  obtain ⟨rfl, rfl⟩ := Prod.mk.inj hpair
  exact ⟨((m.supertype i target).run t).2, rfl, rfl⟩

/-- By base edges the one answer is the first of all. -/
theorem Sound.viaEdges_first (hs : h.Sound) (hissued : h.types.IssuedList i.args)
    (harity : (h.types.args i).length = (h.classes.params i.head).length) (limit : Option Nat)
    (target : ClassId) :
    let one := ((h.mapperUpTo limit).viaEdges i target).run h.types
    (((h.mapperUpTo limit).supertypes i target).run one.2).1.head? = some one.1 := by
  have hwf := hs.wellFormed
  have hall := (hs.keeps_fits limit target).supertypes h.types.le_refl hwf
    ⟨rfl, hissued, harity⟩
  unfold Mapper.viaEdges
  split
  · -- a class without parameters has one instance, and the answers are instances of it
    rename_i hnullary
    have hwf' := hall.wellFormed
    obtain ⟨hne, hfits⟩ := hall.post
    obtain ⟨first, rest, hrs⟩ := List.exists_cons_of_ne_nil hne
    have hfirst := (hfits first (hrs ▸ List.mem_cons_self)).eq_bare hwf' hnullary
    show (((h.mapperUpTo limit).supertypes i target).run h.types).1.head? = _
    rw [hrs, List.head?_cons, hfirst]
    rfl
  · -- the second time the answers are what they were the first time
    have hne := hall.post.1
    have hagain := hall.settled _ (Interner.le_refl _) hall.wellFormed
    rcases hrun : ((h.mapperUpTo limit).supertypes i target).run h.types with ⟨rs, t⟩
    rw [hrun] at hne hagain
    obtain ⟨first, rest, rfl⟩ := List.exists_cons_of_ne_nil hne
    dsimp only
    rw [StateT.run_bind, hrun]
    show (((h.mapperUpTo limit).supertypes i target).run t).1.head? = some first
    rw [hagain, List.head?_cons]

/-- Without a shape that decides, the one answer is the first of all. -/
theorem Sound.head?_of_not_decided (hs : h.Sound) (hissued : h.types.IssuedList i.args)
    (harity : (h.types.args i).length = (h.classes.params i.head).length) {limit : Option Nat}
    (hno : ∀ shape, ¬ h.DecidedByShape i.head target shape) {one : Instance}
    {answers : List Instance}
    (hrun : (oneThenAll (h.mapperUpTo limit) i target).run h.types = ((one, answers), t)) :
    answers.head? = some one := by
  have hanswers := congrArg Prod.fst hrun
  rw [oneThenAll_run] at hanswers
  obtain ⟨rfl, rfl⟩ := Prod.mk.inj hanswers
  by_cases hhead : i.head = target
  · -- as its own class an instance is itself
    have hone : (h.mapperUpTo limit).supertype i target = pure i := by
      rw [Mapper.supertype_eq, if_pos hhead]
    have hall : (h.mapperUpTo limit).all i target = pure [i] := if_pos hhead
    rw [hone, hall]
    rfl
  · have hall : (h.mapperUpTo limit).all i target = (h.mapperUpTo limit).supertypes i target :=
      if_neg hhead
    rw [supertype_run_of_not limit hno hhead, hall]
    exact hs.viaEdges_first hissued harity limit target

/-- With a shape that decides, the one answer is the tuple of its items. -/
theorem DecidedByShape.supertype_run {shape : TupleShape} (limit : Option Nat)
    (hshape : h.DecidedByShape i.head target shape) :
    ((h.mapperUpTo limit).supertype i target).run h.types =
      (h.joinedShape i shape).run h.types := by
  have htuple : target = (h.mapperUpTo limit).view.tuple := hshape.target_tuple
  have hhead : i.head ≠ target := by
    rw [hshape.target_tuple]
    exact hshape.not_tuple
  rw [Mapper.supertype_eq, if_neg hhead, if_pos htuple, StateT.run_bind,
    hshape.viaShape_run limit]
  rfl

/-! ## Base edges that repeat the shape -/

/-- For `i`, the base edges say first what the shape says. The first path to `tuple` has one
edge, which is to the tuple class over the joined items; no `Any` in `i` meets an `Any` in the
shape; and no expansion goes down to the limit. -/
structure RepeatedByEdge (h : Hierarchy) (limit : Option Nat) (i : Instance) (shape : TupleShape)
    (edge : Instance) : Prop where
  first_path : (h.classes.view.paths limit i.head .tuple).head? = some [.tuple]
  first_edge : ((h.classes.bases i.head).filter (·.head = .tuple)).head? = some edge
  joins : h.types.Finds (tupleFallback .tuple shape.elements) edge
  no_any : (∀ x ∈ h.types.args edge, x.isAny = false) ∨ ∀ a ∈ h.types.args i, a.isAny = false
  shallow_edge : ∀ x ∈ h.types.args edge, ¬ h.types.Deep Limits.expansion x
  shallow_items : ∀ e ∈ shape.elements, ¬ h.types.Deep Limits.expansion e.item

/-- The first of several edges leads to the first result. -/
theorem exists_first_of_finds_direct {m : Mapper} {edge : Instance} {rs : List Instance}
    (hedge : ((m.view.bases i.head).filter (·.head = target)).head? = some edge)
    (h : t.Finds (m.direct i target) rs) :
    ∃ r rest, rs = r :: rest ∧ t.Finds ((m.environment t i).applyInstance edge) r := by
  obtain ⟨edges, hedges⟩ := List.head?_eq_some_iff.mp hedge
  unfold Mapper.direct at h
  rw [hedges] at h
  obtain ⟨t', hget, h⟩ := h.of_bind
  obtain rfl : t = t' := congrArg Prod.fst hget
  obtain ⟨r, rest, hr, -, hrs⟩ := List.forall₂_cons_left_iff.mp h.mapM
  exact ⟨r, rest, hrs, hr⟩

/-- If the first path has one edge, its first edge leads to the first answer. -/
theorem exists_first_of_finds_all {m : Mapper} {edge : Instance} {answers : List Instance}
    (hhead : i.head ≠ target) (hpath : (m.view.paths m.limit i.head target).head? = some [target])
    (hedge : ((m.view.bases i.head).filter (·.head = target)).head? = some edge)
    (h : t.Finds (m.all i target) answers) :
    ∃ r, answers.head? = some r ∧ t.Finds ((m.environment t i).applyInstance edge) r := by
  obtain ⟨paths, hpaths⟩ := List.head?_eq_some_iff.mp hpath
  unfold Mapper.all at h
  rw [if_neg hhead] at h
  unfold Mapper.supertypes at h
  rw [hpaths] at h
  obtain ⟨rss, hrss, h⟩ := @Finds.of_bind _ _ _ _ _ _ inferInstance
    (fun rss => by split <;> infer_instance) h
  obtain ⟨rs, rss', hrs, -, rfl⟩ := List.forall₂_cons_left_iff.mp hrss.mapM
  -- the path is one step from the instance alone
  rw [Mapper.along_eq, List.foldlM_cons] at hrs
  obtain ⟨rs', hstep, hrs⟩ := hrs.of_bind
  obtain rfl := hrs.of_pure
  obtain ⟨found, hfound, hstep⟩ := hstep.of_bind
  obtain rfl := hstep.of_pure
  obtain ⟨direct, found', hdirect, -, rfl⟩ := List.forall₂_cons_left_iff.mp hfound.mapM
  obtain ⟨r, rest, rfl, hr⟩ := exists_first_of_finds_direct hedge hdirect
  obtain rfl := h.of_pure
  exact ⟨r, rfl, hr⟩

/-- The joined items of a shape are the one argument that the tuple class takes. -/
theorem Sound.fits_expandedShape (hs : h.Sound) (hle : h.types ≤ t) (hwf : t.WellFormed)
    (m : Mapper) {shape : TupleShape} (hshape : h.classes.shape? i.head = some shape) :
    Repeatable t (do
      let elements ← (m.environment t i).applyElements shape.elements
      tupleFallback .tuple elements) (h.Fits .tuple) := by
  have hitems : ∀ e ∈ shape.elements, t.Issued e.item :=
    fun e he => (hs.shapes_issued i.head shape hshape e he).of_le hle
  refine (Substitution.repeatable_applyElements hwf (Mapper.issued_environment hwf i)
    hitems).bind ?_
  intro elements t₁ _ hwf₁ _ hexpanded
  have hissued : ∀ e ∈ elements, t₁.Issued e.item := by
    intro e he
    obtain ⟨_, -, he'⟩ := exists_of_mem_right hexpanded he
    exact he'.1
  refine (repeatable_tupleFallback hwf₁ .tuple hissued).mono ?_
  rintro r t₂ _ _ _ ⟨hhead, hr, hargs, -⟩
  refine ⟨hhead, hr, ?_⟩
  rw [hargs, hs.tuple_unary.2]
  rfl

/-- The tuple class over the joined items, as it has been found. -/
theorem finds_tupleFallback {c : ClassId} {es : List (Element TypeId)} {r : Instance}
    (h : t.Finds (tupleFallback c es) r) :
    r.head = c ∧ t.IssuedList r.args ∧
      ∃ id, t.args r = [id] ∧ t.Finds (union (es.map Element.item)) id := by
  obtain ⟨id, hid, h⟩ := h.of_bind
  obtain ⟨hhead, hissued, hargs⟩ := h.apply
  exact ⟨hhead, hissued, id, hargs, hid⟩

/-- An edge to the tuple class over the joined items, expanded for `i`, comes to what the shape
says. Where the joined items are an `Any`, no argument of `i` may be one that comes before it. -/
theorem Sound.eq_joinedShape (hs : h.Sound) (hreg : h.types.Regular) (hle : h.types ≤ t)
    (hwf : t.WellFormed) (hroom : t.HasRoom) (hissued : h.types.IssuedList i.args)
    {shape : TupleShape} {edge one expanded : Instance}
    (hshape : h.classes.shape? i.head = some shape) (hedge : edge ∈ h.classes.bases i.head)
    (hjoins : h.types.Finds (tupleFallback .tuple shape.elements) edge)
    (hany : ∀ x ∈ h.types.args edge, x.isAny = true →
      (h.mapper.environment h.types i).NoAnyBefore x)
    (hshallow : ∀ x ∈ h.types.args edge, ¬ h.types.Deep Limits.expansion x)
    (hshallow' : ∀ e ∈ shape.elements, ¬ h.types.Deep Limits.expansion e.item)
    (hone : t.Finds (h.joinedShape i shape) one)
    (hexpanded : t.Finds ((h.mapper.environment h.types i).applyInstance edge) expanded) :
    expanded = one := by
  have hwf₀ := hs.wellFormed
  have hitems := hs.shapes_issued i.head shape hshape
  have hbase := hs.bases_issued i.head edge hedge
  have hregular : (h.mapper.environment h.types i).Regular t :=
    Substitution.regular_ofArgs fun a ha =>
      ((hreg.proper_args hwf₀ hissued).args a ha).of_le hwf₀ hle
  have hproper : ∀ e ∈ shape.elements, t.Proper .anything e.item := fun e he =>
    (hreg.proper hwf₀ (hitems e he)).of_le hwf₀ hle
  have hdeep : ∀ e ∈ shape.elements, ¬ t.Deep Limits.expansion e.item := fun e he =>
    (hwf₀.deep_iff_of_le hle (hitems e he)).not.mpr (hshallow' e he)
  -- the edge is found again in the tables at the end
  have hagain := hjoins.settled (repeatable_tupleFallback hwf₀ .tuple hitems)
  obtain ⟨hhead, -, joined, hjoined, hunion⟩ := finds_tupleFallback ((hagain.of_le hle).finds hwf)
  obtain ⟨es, hes, hone⟩ := hone.of_bind
  obtain ⟨hhead', hissued', joined', hjoined', hunion'⟩ := finds_tupleFallback hone
  have hfound : (h.mapper.environment h.types i).BecomesInstance t edge expanded :=
    Substitution.becomesInstance_of_applyInstance hwf hroom hregular
      ((hreg.proper_args hwf₀ hbase).of_le hwf₀ hle) (.of_le hwf₀ hle hbase (.inr hshallow))
      hexpanded
  have hmem : joined ∈ h.types.args edge := by
    rw [← hbase.args_eq hle, hjoined]
    exact List.mem_singleton_self joined
  -- the items become what they are expanded to, and so does their union
  have hsteps := Substitution.becomes_of_applyElements hwf hroom hregular hproper hdeep hes
  refine hfound.unique hwf ⟨hfound.issued, hissued', hhead'.trans hhead.symm, ?_⟩
  rw [hjoined, hjoined']
  refine .cons ?_ .nil
  refine Substitution.becomes_of_finds_union hwf hroom hregular (hany joined hmem) ?_ ?_ hunion
    hunion'
  · intro item hitem
    obtain ⟨e, he, rfl⟩ := List.mem_map.mp hitem
    exact hproper e he
  · rw [List.forall₂_map_left_iff, List.forall₂_map_right_iff]
    exact hsteps.imp fun e e' hee' => hee'.2

/-- Where a base edge repeats the shape, expanding it comes to what the shape says. -/
theorem RepeatedByEdge.eq_joinedShape {limit : Option Nat} {shape : TupleShape}
    {edge one first : Instance} (hs : h.Sound) (hreg : h.types.Regular) (hle : h.types ≤ t)
    (hwf : t.WellFormed) (hroom : t.HasRoom) (hissued : h.types.IssuedList i.args)
    (hshape : h.classes.shape? i.head = some shape) (hedge : h.RepeatedByEdge limit i shape edge)
    (hone : t.Finds (h.joinedShape i shape) one)
    (hfirst : t.Finds ((h.mapper.environment h.types i).applyInstance edge) first) :
    first = one := by
  refine hs.eq_joinedShape hreg hle hwf hroom hissued hshape
    (List.mem_of_mem_filter (List.mem_of_head? hedge.first_edge)) hedge.joins ?_
    hedge.shallow_edge hedge.shallow_items hone hfirst
  intro x hx hany
  refine (Substitution.noAny_ofArgs (hedge.no_any.resolve_left fun hno => ?_)).noAnyBefore x
  rw [hno x hx] at hany
  cases hany

/-- With a shape that decides, what the shape says and all answers are in the tables at the
end. -/
theorem DecidedByShape.finds_of_oneThenAll {limit : Option Nat} {shape : TupleShape}
    {one : Instance} {answers : List Instance} (hs : h.Sound) (hissued : h.types.IssuedList i.args)
    (harity : (h.types.args i).length = (h.classes.params i.head).length)
    (hshape : h.DecidedByShape i.head target shape)
    (hrun : (oneThenAll (h.mapperUpTo limit) i target).run h.types = ((one, answers), t)) :
    h.types ≤ t ∧ t.WellFormed ∧ t.Finds (h.joinedShape i shape) one ∧
      t.Finds ((h.mapperUpTo limit).all i target) answers := by
  obtain ⟨t₁, hone, hall⟩ := exists_of_oneThenAll_run hrun
  rw [hshape.supertype_run limit] at hone
  obtain ⟨hle, hwf, hsettled, -⟩ := (hs.fits_expandedShape h.types.le_refl hs.wellFormed h.mapper
    hshape.declared).of_run hone
  have hanswers := (hs.keeps_fits limit target).all hle hwf
    ⟨rfl, hissued.of_le hle, by rw [hissued.args_eq hle]; exact harity⟩
  obtain ⟨hle', hwf', hsettled', -⟩ := hanswers.of_run hall
  exact ⟨Interner.le_trans hle hle', hwf', (hsettled.of_le hle').finds hwf', hsettled'.finds hwf'⟩

/-- With a shape that decides, the one answer is the first of all where a base edge repeats the
shape. -/
theorem RepeatedByEdge.head?_eq {limit : Option Nat} {shape : TupleShape} {edge one : Instance}
    {answers : List Instance} (hs : h.Sound) (hreg : h.types.Regular)
    (hissued : h.types.IssuedList i.args)
    (harity : (h.types.args i).length = (h.classes.params i.head).length)
    (hshape : h.DecidedByShape i.head target shape) (hedge : h.RepeatedByEdge limit i shape edge)
    (hrun : (oneThenAll (h.mapperUpTo limit) i target).run h.types = ((one, answers), t))
    (hroom : t.HasRoom) : answers.head? = some one := by
  obtain ⟨hle, hwf, hone, hall⟩ := hshape.finds_of_oneThenAll hs hissued harity hrun
  obtain rfl := hshape.target_tuple
  obtain ⟨first, hfirst, hedgeFound⟩ := exists_first_of_finds_all hshape.not_tuple hedge.first_path
    hedge.first_edge hall
  have henv : (h.mapperUpTo limit).environment t i = h.mapper.environment h.types i :=
    congrArg (Substitution.ofArgs _) (hissued.args_eq hle)
  rw [henv] at hedgeFound
  rw [hfirst, hedge.eq_joinedShape hs hreg hle hwf hroom hissued hshape.declared hone hedgeFound]

/-- On paths of any length, the one answer is the first of all answers, unless the shape of the
class says what it is as a tuple and no base edge repeats it. Where the shape says so, the one
answer is the tuple of its items, and an edge that repeats it gives the same one as long as the
tables do not run out of handles. -/
theorem Constructed.supertype_first (hc : Constructed h) (hissued : h.types.IssuedList i.args)
    (harity : (h.types.args i).length = (h.classes.params i.head).length) (limit : Option Nat)
    (target : ClassId) :
    (∀ one answers t,
      (oneThenAll (h.mapperUpTo limit) i target).run h.types = ((one, answers), t) →
        (∀ shape, h.DecidedByShape i.head target shape →
          t.HasRoom ∧ ∃ edge, h.RepeatedByEdge limit i shape edge) →
        answers.head? = some one) ∧
    ∀ shape, h.DecidedByShape i.head target shape →
      ((h.mapperUpTo limit).supertype i target).run h.types =
        (h.joinedShape i shape).run h.types := by
  obtain ⟨hs, hreg⟩ := hc.sound_regular
  refine ⟨fun one answers t hrun hrepeated => ?_, fun shape hshape => hshape.supertype_run limit⟩
  by_cases hdecided : ∃ shape, h.DecidedByShape i.head target shape
  · obtain ⟨shape, hshape⟩ := hdecided
    obtain ⟨hroom, edge, hedge⟩ := hrepeated shape hshape
    exact hedge.head?_eq hs hreg hissued harity hshape hrun hroom
  · exact hs.head?_of_not_decided hissued harity (not_exists.mp hdecided) hrun

end

/-- The class `Pair[T, U]`, with the shape `(T, U)` alone. -/
def pair : Hierarchy :=
  let types := ((Call.param ⟨⟨2⟩, "T"⟩).build.run {}).2
  let types := ((Call.param ⟨⟨3⟩, "U"⟩).build.run types).2
  let types := ((Interner.apply ⟨3⟩ [⟨46⟩, ⟨46⟩]).run types).2
  let h := ((Hierarchy.register "Pair" [⟨⟨2⟩, "T"⟩, ⟨⟨3⟩, "U"⟩] {}).run.run { types }).2
  ((Hierarchy.setTupleShape ⟨3⟩ [⟨⟨42⟩, false⟩, ⟨⟨46⟩, false⟩]).run.run h).2

theorem constructed_pair : Constructed pair := by
  refine .next (.next (.next (.next (.next .initial
    (.build (.param ⟨⟨2⟩, "T"⟩) ?_)) (.build (.param ⟨⟨3⟩, "U"⟩) ?_))
    (.apply ⟨3⟩ [⟨46⟩, ⟨46⟩] ?_)) (.register "Pair" [⟨⟨2⟩, "T"⟩, ⟨⟨3⟩, "U"⟩] {}))
    (.setTupleShape ⟨3⟩ [⟨⟨42⟩, false⟩, ⟨⟨46⟩, false⟩] ?_)
  · decide
  · decide
  · decide +kernel
  · decide +kernel

/-- The shape of `Pair`. -/
def pairShape : TupleShape :=
  ⟨[⟨⟨42⟩, false⟩, ⟨⟨46⟩, false⟩], false⟩

/-- What `Pair[U, U]` is as a tuple: the one answer and all answers. -/
def pairAnswers : (Instance × List Instance) × Interner :=
  (oneThenAll (pair.mapperUpTo none) ⟨⟨3⟩, ⟨1⟩⟩ .tuple).run pair.types

/-- Its shape says that `Pair[U, U]` is `tuple[U]`, and so does the base edge that came with
it. -/
theorem pair_supertype_first :
    pair.DecidedByShape ⟨3⟩ .tuple pairShape ∧
      pair.RepeatedByEdge none ⟨⟨3⟩, ⟨1⟩⟩ pairShape ⟨.tuple, ⟨3⟩⟩ ∧
      pairAnswers.1.2.head? = some pairAnswers.1.1 ∧
      ((pair.mapperUpTo none).supertype ⟨⟨3⟩, ⟨1⟩⟩ .tuple).run pair.types =
        (pair.joinedShape ⟨⟨3⟩, ⟨1⟩⟩ pairShape).run pair.types := by
  have hissued : pair.types.IssuedList ⟨1⟩ := by
    show 1 ≤ pair.types.typeLists.stored.length
    decide +kernel
  have hshape : pair.DecidedByShape ⟨3⟩ .tuple pairShape := by
    refine ⟨rfl, by decide, by decide +kernel, ?_, rfl⟩
    exact ⟨⟨⟨42⟩, false⟩, List.mem_cons_self, ⟨⟨2⟩, "T"⟩, ⟨42⟩, .refl, by decide +kernel⟩
  have hedge : pair.RepeatedByEdge none ⟨⟨3⟩, ⟨1⟩⟩ pairShape ⟨.tuple, ⟨3⟩⟩ :=
    ⟨by decide +kernel, by decide +kernel, rfl, .inl (by decide +kernel), by decide +kernel,
      by decide +kernel⟩
  have hroom : pairAnswers.2.HasRoom := hasRoom_of_size (by decide +kernel)
  obtain ⟨hfirst, hjoined⟩ := constructed_pair.supertype_first (i := ⟨⟨3⟩, ⟨1⟩⟩) hissued
    (by decide +kernel) none .tuple
  refine ⟨hshape, hedge, hfirst _ _ _ rfl fun shape hdecided => ⟨hroom, ⟨.tuple, ⟨3⟩⟩, ?_⟩,
    hjoined pairShape hshape⟩
  obtain rfl : shape = pairShape := Option.some.inj (hdecided.declared.symm.trans hshape.declared)
  exact hedge

/-- The class `Box[T]` over `tuple[Never]`, with the shape `(T)`. -/
def declaredTwice : Hierarchy :=
  let types := ((Call.param ⟨⟨2⟩, "T"⟩).build.run {}).2
  let types := ((Interner.apply .tuple [.never]).run types).2
  let types := ((Interner.apply ⟨3⟩ [.any .explicit]).run types).2
  let h := ((Hierarchy.register "Box" [⟨⟨2⟩, "T"⟩] {}).run.run { types }).2
  let h := ((Hierarchy.addBase ⟨3⟩ ⟨.tuple, ⟨1⟩⟩).run.run h).2
  ((Hierarchy.setTupleShape ⟨3⟩ [⟨⟨42⟩, false⟩]).run.run h).2

theorem constructed_declaredTwice : Constructed declaredTwice := by
  refine .next (.next (.next (.next (.next (.next .initial
    (.build (.param ⟨⟨2⟩, "T"⟩) ?_)) (.apply .tuple [.never] ?_)) (.apply ⟨3⟩ [.any .explicit] ?_))
    (.register "Box" [⟨⟨2⟩, "T"⟩] {})) (.addBase ⟨3⟩ ⟨.tuple, ⟨1⟩⟩ ?_))
    (.setTupleShape ⟨3⟩ [⟨⟨42⟩, false⟩] ?_)
  · decide
  · decide +kernel
  · decide +kernel
  · exact Nat.le_succ 1
  · decide +kernel

/-- A declared base and a shape that say different things: `Box[Any]` is the tuple `tuple[Any]`,
but along its base edge it is `tuple[Never]`. -/
theorem not_supertype_always_first :
    ¬ ∀ h, Constructed h → ∀ i : Instance, h.types.IssuedList i.args →
      (h.types.args i).length = (h.classes.params i.head).length → ∀ limit target one answers t,
        (oneThenAll (h.mapperUpTo limit) i target).run h.types = ((one, answers), t) →
          answers.head? = some one := by
  intro hall
  have hissued : declaredTwice.types.IssuedList ⟨2⟩ := by
    show 2 ≤ declaredTwice.types.typeLists.stored.length
    decide +kernel
  have hfirst := hall declaredTwice constructed_declaredTwice ⟨⟨3⟩, ⟨2⟩⟩ hissued (by decide +kernel)
    none .tuple _ _ _ rfl
  revert hfirst
  decide +kernel

end Supertypes.Hierarchy
