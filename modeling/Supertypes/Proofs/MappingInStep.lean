import Supertypes.Proofs.PathsInStep
import Supertypes.Proofs.ResolutionInStep

/-!
# Mapping in step

- `ClassView.Corresponds`: views that give counterparts the same parameters, base edges and
  shapes.
- `Mapper.inStep_supertypes`, `Mapper.inStep_all` and `Mapper.inStep_supertype`: mapping the same
  instance to counterparts of one class has the same results in both, in the same order.
-/

namespace Supertypes

open Interner

/-! ## Views -/

variable [Digest TypeData]

/-- Shapes of the same elements, with the same mark. -/
structure SameShape (ρ : Renaming) (t t' : Interner) (shape shape' : TupleShape) : Prop where
  elements : List.Forall₂ (SameElement ρ t t') shape.elements shape'.elements
  isRecursive : shape.isRecursive = shape'.isRecursive

/-- Counterparts have the same names, parameters, base edges and shapes. -/
structure ClassView.Corresponds (ρ : Renaming) (t t' : Interner) (view view' : ClassView) :
    Prop where
  name? : ∀ c c', ρ.cls c c' → ∃ name, view.name? c = some name ∧ view'.name? c' = some name
  params : ∀ c c', ρ.cls c c' → List.Forall₂ ρ.param (view.params c) (view'.params c')
  bases : ∀ c c', ρ.cls c c' →
    List.Forall₂ (SameInstance ρ t t') (view.bases c) (view'.bases c')
  shape? : ∀ c c', ρ.cls c c' →
    Option.Rel (SameShape ρ t t') (view.shape? c) (view'.shape? c')
  tuple : ρ.cls view.tuple view'.tuple
  size : view.size = view'.size

theorem ClassView.Corresponds.sameParents {ρ : Renaming} {t t' : Interner} {view view' : ClassView}
    (h : Corresponds ρ t t' view view') : SameParents ρ view view' :=
  fun c c' hc => (h.bases c c' hc).imp fun _ _ hbase => hbase.head

namespace Mapper

variable {ρ : Renaming} {t t' : Interner} {m m' : Mapper} {i i' : Instance} {c c' : ClassId}

/-! ## Mapping only adds -/

omit [Digest TypeData] in
instance grows_anyInstance (m : Mapper) (c : ClassId) (reason : AnyReason) :
    Grows (m.anyInstance c reason) := by
  unfold anyInstance
  infer_instance

instance grows_direct (m : Mapper) (i : Instance) (target : ClassId) :
    Grows (m.direct i target) := by
  unfold direct
  split
  · infer_instance
  · infer_instance

instance grows_climb (m : Mapper) (i base : Instance) : Grows (m.climb i base) := by
  unfold climb
  infer_instance

instance grows_compose (m : Mapper) (i : Instance) (p : List BaseEdge) :
    Grows (m.compose i p) := by
  unfold compose
  infer_instance

instance grows_onward (m : Mapper) (reached : List Instance) (target : ClassId) :
    Grows (m.onward reached target) := by
  unfold onward
  infer_instance

instance grows_along (m : Mapper) (i : Instance) (path : List ClassId) :
    Grows (m.along i path) := by
  rw [along_eq]
  infer_instance

instance grows_supertypes (m : Mapper) (i : Instance) (target : ClassId) :
    Grows (m.supertypes i target) := by
  unfold supertypes
  refine @Grows.bind _ _ _ _ inferInstance fun rss => ?_
  split
  · infer_instance
  · infer_instance

instance grows_all (m : Mapper) (i : Instance) (target : ClassId) : Grows (m.all i target) := by
  unfold all
  infer_instance

instance grows_viaShape (m : Mapper) (i : Instance) : Grows (m.viaShape i) := by
  unfold viaShape
  refine @Grows.bind _ _ _ _ inferInstance fun types => ?_
  split
  · infer_instance
  · infer_instance

instance grows_viaEdges (m : Mapper) (i : Instance) (target : ClassId) :
    Grows (m.viaEdges i target) := by
  unfold viaEdges
  refine @Grows.ite _ _ _ _ _ inferInstance (@Grows.bind _ _ _ _ inferInstance fun rs => ?_)
  split
  · infer_instance
  · infer_instance

instance grows_supertype (m : Mapper) (i : Instance) (target : ClassId) :
    Grows (m.supertype i target) := by
  rw [supertype_eq]
  refine @Grows.ite _ _ _ _ _ inferInstance (@Grows.ite _ _ _ _ _ ?_ inferInstance)
  refine @Grows.bind _ _ _ _ inferInstance fun mapped => ?_
  split
  · infer_instance
  · infer_instance

/-! ## Mapping the same instance -/

section Mapping

variable (h : Abreast ρ t t') (hview : ClassView.Corresponds ρ t t' m.view m'.view)

include h hview

omit h in
theorem inStep_anyInstance (hc : ρ.cls c c') (reason : AnyReason) :
    InStep t t' (SameInstance ρ t t') (m.anyInstance c reason) (m'.anyInstance c' reason) := by
  unfold anyInstance ClassView.arity
  rw [(hview.params c c' hc).length_eq]
  refine inStep_apply hc (List.forall₂_iff_get.mpr ⟨rfl, fun n _ _ => ?_⟩)
  rw [List.get_eq_getElem, List.getElem_replicate]
  exact .leaf (TypeId.isIntrinsic_any reason)

theorem corresponds_environment (hi : SameInstance ρ t t' i i') :
    Substitution.Corresponds ρ t t' (m.environment t i) (m'.environment t' i') :=
  Substitution.corresponds_ofArgs h.oneToOne (hview.params i.head i'.head hi.head) hi.args

/-- Up the edges to a class. -/
theorem inStep_direct (hi : SameInstance ρ t t' i i') (hc : ρ.cls c c') :
    InStep t t' (List.Forall₂ (SameInstance ρ t t')) (m.direct i c) (m'.direct i' c') := by
  have hedges : List.Forall₂ (SameInstance ρ t t') ((m.view.bases i.head).filter (·.head = c))
      ((m'.view.bases i'.head).filter (·.head = c')) := by
    refine List.rel_filter ?_ (hview.bases i.head i'.head hi.head)
    intro base base' hbase
    simpa using h.oneToOne.cls hbase.head hc
  unfold direct
  revert hedges
  generalize (m.view.bases i.head).filter (·.head = c) = edges
  generalize (m'.view.bases i'.head).filter (·.head = c') = edges'
  rintro (_ | ⟨hbase, hbases⟩)
  · exact (inStep_anyInstance hview hc .unannotated).bind fun r r' hr => .pure (.cons hr .nil)
  · refine .read ?_
    exact .mapM (.cons hbase hbases) fun base base' hbase =>
      Substitution.inStep_applyInstance h (corresponds_environment h hview hi) hbase

/-- Up a path. -/
theorem inStep_along (hi : SameInstance ρ t t' i i') {path path' : List ClassId}
    (hpath : List.Forall₂ ρ.cls path path') :
    InStep t t' (List.Forall₂ (SameInstance ρ t t')) (m.along i path) (m'.along i' path') := by
  rw [along_eq, along_eq]
  refine .foldlM (.cons hi .nil) hpath fun reached reached' c c' hreached hc => ?_
  unfold onward
  exact (InStep.mapM hreached fun j j' hj => inStep_direct h hview hj hc).bind
    fun rss rss' hrss => .pure (List.rel_flatten hrss)

/-- Along all paths. -/
theorem inStep_supertypes (hlimit : m.limit = m'.limit) (hi : SameInstance ρ t t' i i')
    (hc : ρ.cls c c') :
    InStep t t' (List.Forall₂ (SameInstance ρ t t')) (m.supertypes i c) (m'.supertypes i' c') := by
  have hpaths := ClassView.forall₂_paths h.oneToOne hview.sameParents hc hview.size m.limit hi.head
  unfold supertypes
  rw [← hlimit]
  refine .bind_of_grows ?_ ?_
    (.mapM hpaths fun path path' hpath => inStep_along h hview hi hpath) ?_
  · intro rss
    split <;> infer_instance
  · intro rss
    split <;> infer_instance
  intro rss rss' hrss
  have hflat := List.rel_flatten hrss
  revert hflat
  generalize rss.flatten = rs
  generalize rss'.flatten = rs'
  rintro (_ | ⟨hr, hrs⟩)
  · exact (inStep_anyInstance hview hc .fromError).bind fun r r' hr => .pure (.cons hr .nil)
  · exact .pure (.cons hr hrs)

/-- Along all paths, or the instance itself. -/
theorem inStep_all (hlimit : m.limit = m'.limit) (hi : SameInstance ρ t t' i i')
    (hc : ρ.cls c c') :
    InStep t t' (List.Forall₂ (SameInstance ρ t t')) (m.all i c) (m'.all i' c') := by
  unfold all
  have heq := h.oneToOne.cls hi.head hc
  by_cases hself : i.head = c
  · rw [if_pos hself, if_pos (heq.mp hself)]
    exact .pure (.cons hi .nil)
  · rw [if_neg hself, if_neg (mt heq.mpr hself)]
    exact inStep_supertypes h hview hlimit hi hc

/-- By the tuple shape, which is looked at in both or in neither. -/
theorem inStep_viaShape (hi : SameInstance ρ t t' i i') :
    InStep t t' (Option.Rel (SameInstance ρ t t')) (m.viaShape i) (m'.viaShape i') := by
  unfold viaShape
  refine .read ?_
  rcases rel_cases (hview.shape? i.head i'.head hi.head) with
    ⟨hnone, hnone'⟩ | ⟨shape, shape', hsome, hsome', hshape⟩
  · rw [hnone, hnone']
    exact .pure .none
  · have hmentions : (shape.elements.any fun e => t.mentionsParam e.item) =
        shape'.elements.any fun e => t'.mentionsParam e.item := by
      have hany : ∀ {es es' : List (Element TypeId)}, List.Forall₂ (SameElement ρ t t') es es' →
          (es.any fun e => t.mentionsParam e.item) = es'.any fun e => t'.mentionsParam e.item := by
        intro es es' hes
        induction hes with
        | nil => rfl
        | cons he _ ih =>
          rw [List.any_cons, List.any_cons, he.2.mentionsParam_eq h.wellFormed h.wellFormed', ih]
      exact hany hshape.elements
    rw [hsome, hsome']
    dsimp only
    rw [hmentions, hshape.isRecursive]
    split
    · exact .pure .none
    · refine (Substitution.inStep_applyElements h (corresponds_environment h hview hi)
        hshape.elements).bind fun es es' hes => ?_
      exact (h.inStep_tupleFallback hview.tuple hes).bind fun r r' hr => .pure (.some hr)

/-- By base edges. -/
theorem inStep_viaEdges (hlimit : m.limit = m'.limit) (hi : SameInstance ρ t t' i i')
    (hc : ρ.cls c c') :
    InStep t t' (SameInstance ρ t t') (m.viaEdges i c) (m'.viaEdges i' c') := by
  have hparams := hview.params c c' hc
  have hempty : (m.view.params c).isEmpty = (m'.view.params c').isEmpty := by
    rw [Bool.eq_iff_iff, List.isEmpty_iff_length_eq_zero, List.isEmpty_iff_length_eq_zero,
      hparams.length_eq]
  unfold viaEdges
  rw [hempty]
  split
  · exact .pure (.bare hc)
  · refine .bind_of_grows ?_ ?_ (inStep_supertypes h hview hlimit hi hc) ?_
    · intro rs
      split <;> infer_instance
    · intro rs
      split <;> infer_instance
    rintro _ _ (_ | ⟨hr, hrs⟩)
    · exact inStep_anyInstance hview hc .fromError
    · exact .pure hr

/-- The one answer. -/
theorem inStep_supertype (hlimit : m.limit = m'.limit) (hi : SameInstance ρ t t' i i')
    (hc : ρ.cls c c') :
    InStep t t' (SameInstance ρ t t') (m.supertype i c) (m'.supertype i' c') := by
  rw [supertype_eq, supertype_eq]
  have hself := h.oneToOne.cls hi.head hc
  by_cases hhead : i.head = c
  · rw [if_pos hhead, if_pos (hself.mp hhead)]
    exact .pure hi
  rw [if_neg hhead, if_neg (mt hself.mpr hhead)]
  have htuple := h.oneToOne.cls hc hview.tuple
  by_cases heq : c = m.view.tuple
  · rw [if_pos heq, if_pos (htuple.mp heq)]
    refine .bind_of_grows ?_ ?_ (inStep_viaShape h hview hi) ?_
    · intro mapped
      split <;> infer_instance
    · intro mapped
      split <;> infer_instance
    rintro _ _ (hr | _)
    · exact .pure hr
    · exact inStep_viaEdges h hview hlimit hi hc
  · rw [if_neg heq, if_neg (mt htuple.mpr heq)]
    exact inStep_viaEdges h hview hlimit hi hc

end Mapping

end Mapper

end Supertypes
