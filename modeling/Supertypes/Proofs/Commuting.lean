import Supertypes.Proofs.Constructed
import Supertypes.Proofs.MappingInStep
import Supertypes.Proofs.OneAnswer
import Supertypes.Proofs.Substituting

/-!
# Mapping commutes with substitution

Two runs in one table: an instance is mapped, and so is what the instance becomes.

- `Hierarchy.Carried`: an instance of a class and what it becomes.
- `Hierarchy.EdgesShallow`, `Hierarchy.StaysShallow`: no expansion goes down to the limit.
- `Hierarchy.carried_along` and `Hierarchy.carried_all`: the results of mapping what an instance
  becomes are what the results of mapping the instance become. `Hierarchy.eq_of_carried_all` says
  so of what has been found in the end.
- `Hierarchy.Constructed.all_commutes` puts this together.
-/

namespace Supertypes

namespace Hierarchy

open Interner Substitution

section

variable [Digest TypeData] {h : Hierarchy} {s : Substitution} {t : Interner} {i j j' : Instance}
  {c d target : ClassId}

/-- An instance of `c` with an argument for each parameter, and what it becomes. -/
structure Carried (h : Hierarchy) (s : Substitution) (t : Interner) (c : ClassId)
    (j j' : Instance) : Prop where
  head : j.head = c
  proper : t.ProperInstance .anything j
  arity : (t.args j).length = (h.classes.params c).length
  becomes : s.BecomesInstance t j j'

/-- Expanding the edges from `c` to `d` does not go down to the limit, or there is nothing to
expand. -/
def EdgesShallow (h : Hierarchy) (c d : ClassId) : Prop :=
  ∀ base ∈ h.classes.bases c, base.head = d → h.classes.params c = [] ∨
    ∀ a ∈ h.types.args base, ¬ h.types.Deep Limits.expansion a

instance decidableEdgesShallow (h : Hierarchy) : DecidableRel h.EdgesShallow := fun c d =>
  inferInstanceAs (Decidable (∀ base ∈ h.classes.bases c, base.head = d →
    h.classes.params c = [] ∨ ∀ a ∈ h.types.args base, ¬ h.types.Deep Limits.expansion a))

/-- What a class is seen as that has only intrinsic arguments stays. -/
theorem carried_anyInstance (target : ClassId) (reason : AnyReason) :
    InStep t t (h.Carried s t target) (h.mapper.anyInstance target reason)
      (h.mapper.anyInstance target reason) := by
  intro r r' hr hr'
  obtain rfl : r = r' := congrArg Prod.fst (hr.symm.trans hr')
  obtain ⟨hhead, hissued, hargs⟩ := hr.apply
  have hintrinsic : ∀ a ∈ t.args r, a.isIntrinsic = true := by
    intro a ha
    rw [hargs] at ha
    rw [List.eq_of_mem_replicate ha]
    exact TypeId.isIntrinsic_any reason
  refine ⟨hhead, ⟨hissued, trivial, fun a ha => .leaf (hintrinsic a ha) trivial⟩, ?_, ?_⟩
  · rw [hargs]
    exact List.length_replicate
  · exact ⟨hissued, hissued, rfl, List.forall₂_same.mpr fun a ha => .leaf (hintrinsic a ha)⟩

/-! ## Environments -/

/-- A parameter of the class is bound to an argument and to what it becomes. -/
theorem Carried.exists_bound (hj : h.Carried s t c j j') {p : ParamId}
    (hp : ∃ q ∈ h.classes.params c, q.id = p) :
    ∃ v v', (h.mapper.environment t j).get? p = some v ∧
      (h.mapper.environment t j').get? p = some v' ∧ s.Becomes t v v' := by
  obtain rfl := hj.head
  obtain ⟨q, hq, rfl⟩ := hp
  have hparams : List.Forall₂ Eq (h.classes.params j.head) (h.classes.params j'.head) := by
    rw [hj.becomes.head, List.forall₂_eq_eq_eq]
  have hrel := rel_get?_ofArgs hparams hj.becomes.args fun p p' (hpp' : p = p') =>
    (by rw [hpp'] : p.id = q.id ↔ p'.id = q.id)
  have hsome := get?_ofArgs_isSome (Nat.le_of_eq hj.arity.symm) hq
  rcases rel_cases hrel with ⟨hnone, -⟩ | ⟨v, v', hv, hv', hvv'⟩
  · rw [hnone] at hsome
    cases hsome
  · exact ⟨v, v', hv, hv', hvv'⟩

/-- Expanding an edge does not go down to the limit in later tables either. -/
theorem Sound.shallow_environment (hs : h.Sound) (hle : h.types ≤ t) {base : Instance}
    (hbase : base ∈ h.classes.bases j.head) (hshallow : h.EdgesShallow j.head base.head) :
    (h.mapper.environment t j).Shallow t base := by
  have hissued := hs.bases_issued j.head base hbase
  rcases hshallow base hbase rfl with hnil | hdeep
  · refine .inl ?_
    have hparams : h.mapper.view.params j.head = [] := hnil
    unfold Mapper.environment
    rw [isEmpty_ofArgs, hparams]
    rfl
  · exact Shallow.of_le hs.wellFormed hle hissued (.inr hdeep)

/-! ## Up the edges -/

section Mapping

variable (hs : h.Sound) (hreg : h.types.Regular) (hle : h.types ≤ t) (hwf : t.WellFormed)
  (hroom : t.HasRoom) (hbound : s.Regular t) (hany : s.NoAny)

include hs hreg hle hwf hroom hbound hany

/-- Up one edge. -/
theorem carried_edge {base : Instance} (hbase : base ∈ h.classes.bases c)
    (hshallow : h.EdgesShallow c base.head) (hj : h.Carried s t c j j') :
    InStep t t (h.Carried s t base.head) ((h.mapper.environment t j).applyInstance base)
      ((h.mapper.environment t j').applyInstance base) := by
  obtain rfl := hj.head
  have hvalid := hs.bases_valid j.head base hbase
  have hissued := hs.bases_issued j.head base hbase
  have hargs : t.args base = h.types.args base := hissued.args_eq hle
  have hproper : t.ProperInstance .anything base :=
    (hreg.proper_args hs.wellFormed hissued).of_le hs.wellFormed hle
  -- both environments bind proper types, since what the arguments become is proper
  have henv : (h.mapper.environment t j).Regular t := regular_ofArgs hj.proper.args
  have henv' : (h.mapper.environment t j').Regular t := by
    refine regular_ofArgs fun a' ha' => ?_
    obtain ⟨a, ha, haa'⟩ := exists_of_mem_right hj.becomes.args ha'
    exact haa'.proper hbound (hj.proper.args a ha)
  intro r r' hr hr'
  have hfound : (h.mapper.environment t j).BecomesInstance t base r :=
    becomesInstance_of_applyInstance hwf hroom henv hproper
      (hs.shallow_environment hle hbase hshallow) hr
  have hfound' : (h.mapper.environment t j').BecomesInstance t base r' := by
    refine becomesInstance_of_applyInstance hwf hroom henv' hproper ?_ hr'
    rw [← hj.becomes.head] at hbase hshallow
    exact hs.shallow_environment hle hbase hshallow
  refine ⟨hfound.head, ⟨hfound.issued', trivial, fun b hb => ?_⟩, ?_, ?_⟩
  · obtain ⟨a, ha, hab⟩ := exists_of_mem_right hfound.args hb
    exact hab.proper henv (hproper.args a ha)
  · rw [← hfound.args.length_eq, hargs, hvalid.arity]
  · -- the edge mentions parameters of its class only, and those are bound in step
    refine hfound.compose hwf hbound hany henv hproper (fun a ha p hp => ?_) hfound'
    rw [hargs] at ha
    have hp' := (hs.wellFormed.mentions_iff_of_le hle
      (hs.wellFormed.issued_of_mem_typeList ha)).mp hp
    exact hj.exists_bound (hvalid.own a ha p hp')

/-- Up all edges to a class, one at least. -/
theorem carried_direct {base : Instance} (hbase : base ∈ h.classes.bases c)
    (hshallow : h.EdgesShallow c base.head) (hj : h.Carried s t c j j') :
    InStep t t (List.Forall₂ (h.Carried s t base.head)) (h.mapper.direct j base.head)
      (h.mapper.direct j' base.head) := by
  have hedge : base ∈ (h.mapper.view.bases j.head).filter (·.head = base.head) := by
    rw [hj.head]
    exact List.mem_filter.mpr ⟨hbase, by simp⟩
  unfold Mapper.direct
  rw [hj.becomes.head]
  split
  · rename_i hnil
    rw [hnil] at hedge
    exact absurd hedge List.not_mem_nil
  · refine .read ?_
    refine .mapM (R := fun edge edge' => edge = edge' ∧ edge ∈
      (h.mapper.view.bases j.head).filter (·.head = base.head))
      (List.forall₂_same.mpr fun edge hedge => ⟨rfl, hedge⟩) ?_
    rintro edge _ ⟨rfl, hedge⟩
    obtain ⟨hmem, hhead⟩ := List.mem_filter.mp hedge
    have hhead' : edge.head = base.head := by simpa using hhead
    rw [hj.head] at hmem
    rw [← hhead'] at hshallow ⊢
    exact carried_edge hs hreg hle hwf hroom hbound hany hmem hshallow hj

/-- From all the instances that have been reached. -/
theorem carried_onward {base : Instance} (hbase : base ∈ h.classes.bases c)
    (hshallow : h.EdgesShallow c base.head) {reached reached' : List Instance}
    (hreached : List.Forall₂ (h.Carried s t c) reached reached') :
    InStep t t (List.Forall₂ (h.Carried s t base.head)) (h.mapper.onward reached base.head)
      (h.mapper.onward reached' base.head) := by
  unfold Mapper.onward
  exact (InStep.mapM hreached fun j j' hj =>
    carried_direct hs hreg hle hwf hroom hbound hany hbase hshallow hj).bind
      fun rss rss' hrss => .pure (List.rel_flatten hrss)

/-- Up a path. -/
theorem carried_along {path : List ClassId} (hpath : h.mapper.view.Leads target c path)
    (hway : (c :: path).IsChain h.EdgesShallow) (hj : h.Carried s t c j j') :
    InStep t t (List.Forall₂ (h.Carried s t target)) (h.mapper.along j path)
      (h.mapper.along j' path) := by
  -- induction along the path, for any list of instances in step
  have honward : ∀ c path, h.mapper.view.Leads target c path →
      (c :: path).IsChain h.EdgesShallow →
      ∀ reached reached', List.Forall₂ (h.Carried s t c) reached reached' →
      InStep t t (List.Forall₂ (h.Carried s t target)) (path.foldlM h.mapper.onward reached)
        (path.foldlM h.mapper.onward reached') := by
    intro c path hpath
    induction hpath with
    | last hbase htarget =>
      obtain rfl := htarget
      intro hway reached reached' hreached
      rw [List.foldlM_cons, List.foldlM_cons]
      have hshallow := (List.isChain_cons_cons.mp hway).1
      exact (carried_onward hs hreg hle hwf hroom hbound hany hbase hshallow hreached).bind
        fun rs rs' hrs => .pure hrs
    | step hbase hpath ih =>
      intro hway reached reached' hreached
      rw [List.foldlM_cons, List.foldlM_cons]
      obtain ⟨hshallow, hway⟩ := List.isChain_cons_cons.mp hway
      exact (carried_onward hs hreg hle hwf hroom hbound hany hbase hshallow hreached).bind
        (ih hway)
  rw [Mapper.along_eq, Mapper.along_eq]
  exact honward c path hpath hway [j] [j'] (.cons hj .nil)

/-- Along all paths, or the instance itself. -/
theorem carried_all (hway : c ≠ target → ∀ path ∈ h.mapper.view.paths none c target,
      (c :: path).IsChain h.EdgesShallow) (hj : h.Carried s t c j j') :
    InStep t t (List.Forall₂ (h.Carried s t target)) (h.mapper.all j target)
      (h.mapper.all j' target) := by
  obtain rfl := hj.head
  unfold Mapper.all
  rw [hj.becomes.head]
  -- of its own class the instance is the one result
  split
  · rename_i hhead
    exact .pure (.cons (hhead ▸ hj) .nil)
  · rename_i hhead
    unfold Mapper.supertypes
    rw [hj.becomes.head]
    refine .bind_of_grows ?_ ?_ (.mapM (R := fun path path' => path = path' ∧
      path ∈ h.mapper.view.paths none j.head target) (S := List.Forall₂ (h.Carried s t target))
      (List.forall₂_same.mpr fun path hpath => ⟨rfl, hpath⟩) ?_) ?_
    · intro rss
      split <;> infer_instance
    · intro rss
      split <;> infer_instance
    · rintro path _ ⟨rfl, hpath⟩
      exact carried_along hs hreg hle hwf hroom hbound hany (ClassView.leads_of_mem_paths hpath)
        (hway hhead path hpath) hj
    · intro rss rss' hrss
      -- with no result at all on either side both fall back to error `Any`s
      have hflat := List.rel_flatten hrss
      revert hflat
      generalize rss.flatten = rs
      generalize rss'.flatten = rs'
      rintro (_ | ⟨hr, hrs⟩)
      · exact (carried_anyInstance target .fromError).bind fun r r' hr => .pure (.cons hr .nil)
      · exact .pure (.cons hr hrs)

/-- What has been found by expanding first is what has been found by expanding last. -/
theorem eq_of_carried_all (hway : c ≠ target → ∀ path ∈ h.mapper.view.paths none c target,
      (c :: path).IsChain h.EdgesShallow) (hj : h.Carried s t c j j')
    {rs after before : List Instance} (hshallow : ∀ r ∈ rs, s.Shallow t r)
    (hrs : t.Finds (h.mapper.all j target) rs) (hafter : t.Finds (rs.mapM s.applyInstance) after)
    (hbefore : t.Finds (h.mapper.all j' target) before) : before = after := by
  have hresults : List.Forall₂ (h.Carried s t target) rs before :=
    carried_all hs hreg hle hwf hroom hbound hany hway hj rs before hrs hbefore
  refine eq_of_forall₂ (forall₂_imp_mem hresults fun r hr b _ hb a ha => ?_) hafter.mapM
  -- what a result expands to is what it becomes
  exact hb.becomes.unique hwf
    (becomesInstance_of_applyInstance hwf hroom hbound hb.proper (hshallow r hr) ha)

end Mapping

/-! ## Both ways -/

/-- Map the instance, then expand the results. -/
def mapThenExpand (m : Mapper) (s : Substitution) (i : Instance) (target : ClassId) :
    Interning (List Instance) := do
  (← m.all i target).mapM s.applyInstance

/-- Expand the instance, then map it. -/
def expandThenMap (m : Mapper) (s : Substitution) (i : Instance) (target : ClassId) :
    Interning (List Instance) := do
  m.all (← s.applyInstance i) target

/-- The one after the other. -/
def bothWays (m : Mapper) (s : Substitution) (i : Instance) (target : ClassId) :
    Interning (List Instance × List Instance) := do
  let after ← mapThenExpand m s i target
  let before ← expandThenMap m s i target
  return (after, before)

instance grows_mapThenExpand (m : Mapper) (s : Substitution) (i : Instance) (target : ClassId) :
    Grows (mapThenExpand m s i target) := by
  unfold mapThenExpand
  infer_instance

instance grows_expandThenMap (m : Mapper) (s : Substitution) (i : Instance) (target : ClassId) :
    Grows (expandThenMap m s i target) := by
  unfold expandThenMap
  infer_instance

/-- Going both ways is repeatable. -/
theorem Sound.repeatable_bothWays (hs : h.Sound) (hi : h.Fits i.head i h.types)
    (hvalues : s.Issued h.types) :
    Repeatable h.types (bothWays h.mapper s i target) fun _ _ => True := by
  have hkeeps := hs.keeps_fits none target
  have hafter : Repeatable h.types (mapThenExpand h.mapper s i target) fun _ _ => True := by
    refine (hkeeps.all h.types.le_refl hs.wellFormed hi).bind ?_
    rintro rs t hle hwf _ ⟨-, hrs⟩
    have hlasting : ∀ _ : Instance,
        Repeatable.Lasting fun (r : Instance) t => t.IssuedList r.args :=
      fun _ _ _ _ _ hle hr => IssuedList.of_le hr hle
    refine (Repeatable.mapM hlasting hwf fun r hr t' hle' hwf' => ?_).mono
      fun _ _ _ _ _ _ => trivial
    exact (repeatable_applyInstance hwf' (hvalues.of_le (Interner.le_trans hle hle'))
      ((hrs r hr).2.1.of_le hle')).mono fun _ _ _ _ _ hr' => hr'.2.1
  -- the second way starts from the tables that the first one has left
  refine hafter.bind fun after t hle hwf _ _ => ?_
  have hi' := hi.2.1.of_le hle
  have hbefore : Repeatable t (expandThenMap h.mapper s i target) fun _ _ => True := by
    refine (repeatable_applyInstance hwf (hvalues.of_le hle) hi').bind ?_
    rintro i' t' hle' hwf' _ ⟨hhead, hissued, hargs⟩
    have hfits : h.Fits i'.head i' t' := by
      refine ⟨rfl, hissued, ?_⟩
      rw [← hargs.length_eq, hi.2.1.args_eq hle, hhead]
      exact hi.2.2
    exact (hkeeps.all (Interner.le_trans hle hle') hwf' hfits).mono fun _ _ _ _ _ _ => trivial
  exact hbefore.bind fun before t' _ hwf' _ _ => .pure hwf' trivial

/-- No expansion goes down to the limit: not that of the instance, not that of an edge on a path
to `target`, and not that of a result. -/
structure StaysShallow (h : Hierarchy) (s : Substitution) (i : Instance) (target : ClassId) :
    Prop where
  subject : s.Shallow h.types i
  edges : i.head ≠ target → ∀ path ∈ h.mapper.view.paths none i.head target,
    (i.head :: path).IsChain h.EdgesShallow
  results : ∀ r ∈ ((h.mapper.all i target).run h.types).1,
    s.Shallow ((h.mapper.all i target).run h.types).2 r

/-- The results of mapping what an instance expands to are what the results of mapping the
instance expand to, one by one, if no parameter gives way to an `Any`, no expansion goes down to
the limit, and the tables do not run out of handles. -/
theorem Constructed.all_commutes (hc : Constructed h) (hi : h.types.IssuedList i.args)
    (harity : (h.types.args i).length = (h.classes.params i.head).length)
    (hvalues : s.Issued h.types) (hany : s.NoAny) (hshallow : h.StaysShallow s i target)
    {after before : List Instance}
    (hrun : (bothWays h.mapper s i target).run h.types = ((after, before), t))
    (hroom : t.HasRoom) : before = after := by
  obtain ⟨hs, hreg⟩ := hc.sound_regular
  have hfits : h.Fits i.head i h.types := ⟨rfl, hi, harity⟩
  have hboth : Repeatable h.types (bothWays h.mapper s i target) fun _ _ => True :=
    hs.repeatable_bothWays hfits hvalues
  have hall := (hs.keeps_fits none target).all h.types.le_refl hs.wellFormed hfits
  have hmapped : ((h.mapper.all i target).run h.types).2 ≤ t := by
    have hexpands : ((h.mapper.all i target).run h.types).2 ≤
        ((mapThenExpand h.mapper s i target).run h.types).2 :=
      Grows.le_run (x := ((h.mapper.all i target).run h.types).1.mapM s.applyInstance) _
    have hmaps : ((mapThenExpand h.mapper s i target).run h.types).2 ≤
        ((bothWays h.mapper s i target).run h.types).2 :=
      Grows.le_run (x := expandThenMap h.mapper s i target) _
    rw [hrun] at hmaps
    exact Interner.le_trans hexpands hmaps
  -- all is looked at in the tables at the end
  have hle := hboth.le
  have hwf := hboth.wellFormed
  have hfinds := hboth.settled.finds hwf
  rw [hrun] at hle hwf hfinds
  obtain ⟨after', hafter, hfinds⟩ := hfinds.of_bind
  obtain ⟨before', hbefore, hfinds⟩ := hfinds.of_bind
  obtain ⟨rfl, rfl⟩ := Prod.mk.inj hfinds.of_pure
  obtain ⟨rs, hrs, hafter⟩ := hafter.of_bind
  obtain ⟨i', hi', hbefore⟩ := hbefore.of_bind
  have hregular : s.Regular t := fun p value hvalue =>
    (hreg.proper hs.wellFormed (hvalues p value hvalue)).of_le hs.wellFormed hle
  have hproper := (hreg.proper_args hs.wellFormed hi).of_le hs.wellFormed hle
  have hcarried : h.Carried s t i.head i i' := by
    refine ⟨rfl, hproper, ?_, becomesInstance_of_applyInstance hwf hroom hregular hproper
      (hshallow.subject.of_le hs.wellFormed hle hi) hi'⟩
    rw [hi.args_eq hle]
    exact harity
  have hsame : ((h.mapper.all i target).run h.types).1 = rs :=
    congrArg Prod.fst ((hall.settled.of_le hmapped).finds hwf |>.symm.trans hrs)
  have hresults : ∀ r ∈ rs, s.Shallow t r := fun r hr =>
    (hshallow.results r (hsame ▸ hr)).of_le hall.wellFormed hmapped (hall.post.2 r (hsame ▸ hr)).2.1
  exact eq_of_carried_all hs hreg hle hwf hroom hregular hany hshallow.edges hcarried hresults hrs
    hafter hbefore

end

/-- The class `Either[T, U]` over `tuple[T | U]`. -/
def either : Hierarchy :=
  let types := ((Call.param ⟨⟨2⟩, "T"⟩).build.run {}).2
  let types := ((Call.param ⟨⟨3⟩, "U"⟩).build.run types).2
  let types := ((Call.union [⟨42⟩, ⟨46⟩]).build.run types).2
  let types := ((Interner.apply .tuple [⟨32⟩]).run types).2
  let h := ((Hierarchy.register "Either" [⟨⟨2⟩, "T"⟩, ⟨⟨3⟩, "U"⟩] {}).run.run { types }).2
  ((Hierarchy.addBase ⟨3⟩ ⟨.tuple, ⟨2⟩⟩).run.run h).2

theorem constructed_either : Constructed either := by
  refine .next (.next (.next (.next (.next (.next .initial
    (.build (.param ⟨⟨2⟩, "T"⟩) ?_)) (.build (.param ⟨⟨3⟩, "U"⟩) ?_))
    (.build (.union [⟨42⟩, ⟨46⟩]) ?_)) (.apply .tuple [⟨32⟩] ?_))
    (.register "Either" [⟨⟨2⟩, "T"⟩, ⟨⟨3⟩, "U"⟩] {})) (.addBase ⟨3⟩ ⟨.tuple, ⟨2⟩⟩ ?_)
  · decide
  · decide
  · decide +kernel
  · decide +kernel
  · exact Nat.le_refl 2

/-- `U` for `T`. -/
def mergeParams : Substitution :=
  .ofArgs [⟨⟨2⟩, "T"⟩] [⟨46⟩]

/-- What `Either[T, U]` is as a tuple, and what it is with `U` for `T`, both ways. -/
def mergedBothWays : (List Instance × List Instance) × Interner :=
  (bothWays either.mapper mergeParams ⟨⟨3⟩, ⟨1⟩⟩ .tuple).run either.types

/-- With `U` for `T` the union of both collapses: either way `Either[T, U]` is `tuple[U]`. -/
theorem either_all_commutes :
    either.StaysShallow mergeParams ⟨⟨3⟩, ⟨1⟩⟩ .tuple ∧ mergedBothWays.1.2 = mergedBothWays.1.1 ∧
      mergedBothWays.1.1.map mergedBothWays.2.args = [[⟨46⟩]] := by
  have hissued : either.types.IssuedList ⟨1⟩ := by
    show 1 ≤ either.types.typeLists.stored.length
    decide +kernel
  have hvalues : mergeParams.Issued either.types := issued_ofArgs (by decide +kernel)
  have hany : mergeParams.NoAny := noAny_ofArgs (by decide)
  have hshallow : either.StaysShallow mergeParams ⟨⟨3⟩, ⟨1⟩⟩ .tuple :=
    ⟨by decide +kernel, by decide +kernel, by decide +kernel⟩
  have hroom : mergedBothWays.2.HasRoom := hasRoom_of_size (by decide +kernel)
  refine ⟨hshallow, ?_, by decide +kernel⟩
  exact constructed_either.all_commutes hissued (by decide +kernel) hvalues hany hshallow rfl hroom

end Hierarchy

end Supertypes
