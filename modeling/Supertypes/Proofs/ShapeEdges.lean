import Supertypes.Proofs.OneAnswer
import Supertypes.Proofs.Results

/-!
# Edges made from shapes

- `Hierarchy.DerivedFromShape`: a class is a tuple by one edge only, the one that its tuple shape
  makes. `Hierarchy.Sound.derivedFromShape` says that declaring a shape leaves a class like this,
  if it is no tuple before.
- `Hierarchy.Constructed.shape_agrees`: then the tuple of the expanded items is what going up
  that edge comes to, whatever the arguments.
-/

namespace Supertypes.Hierarchy

open Interner Relation

section

variable [Digest TypeData]

variable {h : Hierarchy} {t : Interner} {i : Instance} {c : ClassId} {shape : TupleShape}
  {edge : BaseEdge}

/-- The only path from a class to `tuple` is the edge that its shape makes: to the tuple class
over the joined items. -/
structure DerivedFromShape (h : Hierarchy) (c : ClassId) (shape : TupleShape) (edge : BaseEdge) :
    Prop where
  only_path : ∀ p, h.mapper.view.EdgePath .tuple c p ↔ p = [edge]
  joins : h.types.Finds (tupleFallback .tuple shape.elements) edge.base

theorem DerivedFromShape.mem_bases (hedge : h.DerivedFromShape c shape edge) :
    edge.base ∈ h.classes.bases c := by
  have hpath := (hedge.only_path [edge]).mpr rfl
  rw [ClassView.edgePath_iff_way] at hpath
  have hmem : edge.base ∈ (h.mapper.view.edges c).map BaseEdge.base :=
    List.mem_map_of_mem hpath.2.1
  rwa [ClassView.map_base_edges] at hmem

/-! ## Declaring a shape -/

omit [Digest TypeData] in
theorem edges_withBase (hc : h.classes.contains c = true) (base : Instance) :
    (h.withBase c base).mapper.view.edges c =
      h.mapper.view.edges c ++ [⟨base, (h.classes.bases c).length⟩] := by
  have hbases : (h.withBase c base).mapper.view.bases c = h.mapper.view.bases c ++ [base] := by
    show (h.withBase c base).classes.bases c = h.classes.bases c ++ [base]
    rw [bases_withBase hc, if_pos rfl]
  unfold ClassView.edges
  rw [hbases, List.mapIdx_concat]
  rfl

/-- A new edge to a class that `c` does not derive from is the only path there. -/
theorem Sound.only_path_withBase (hs : h.Sound) {base : Instance} (ha : h.Admits c base)
    (hnot : ¬ h.classes.Ancestor c base.head) (p : List BaseEdge) :
    (h.withBase c base).mapper.view.EdgePath base.head c p ↔
      p = [⟨base, (h.classes.bases c).length⟩] := by
  have hacyclic : (h.withBase c base).classes.Acyclic :=
    hs.acyclic.append ha.no_cycle fun d a => mem_parents_withBase
  have hstep : ∀ e ∈ h.mapper.view.edges c, Search.Step h.classes.parents c e.target :=
    fun e he => ClassView.mem_parents_iff.mpr ⟨e, he, rfl⟩
  have hcases : ∀ e ∈ (h.withBase c base).mapper.view.edges c,
      e ∈ h.mapper.view.edges c ∨ e = ⟨base, (h.classes.bases c).length⟩ := by
    intro e he
    rw [edges_withBase ha.known] at he
    exact (List.mem_append.mp he).imp_right List.mem_singleton.mp
  constructor
  · intro hp
    -- an edge path that starts with an old edge would make the class derive from the target
    -- before
    cases hp with
    | @last _ e he htarget =>
      rcases hcases e he with hold | rfl
      · exact absurd (.single (htarget ▸ hstep e hold)) hnot
      · rfl
    | @step _ e p he hp =>
      exfalso
      rcases hcases e he with hold | rfl
      · -- a path on from an old edge is old itself, or it closes a cycle at `c`
        rcases Registry.Ancestor.of_append (r := h.classes)
          (fun d a => mem_parents_withBase) hp.ancestor with hpath | ⟨hback, -⟩
        · exact hnot (.head (hstep e hold) hpath)
        · exact hs.acyclic c (.head' (hstep e hold) hback)
      · exact hacyclic base.head hp.ancestor
  · rintro rfl
    refine .last ?_ rfl
    rw [edges_withBase ha.known]
    exact List.mem_append_right _ (List.mem_singleton_self _)

/-- Declaring a shape for a class that is no tuple gives it the edge that the shape makes. -/
theorem Sound.derivedFromShape (hs : h.Sound) {elements : List (Element TypeId)}
    (hitems : ∀ e ∈ elements, h.types.Issued e.item) (hnot : h.classes.derives c .tuple = false)
    (hok : ((setTupleShape c elements).run.run h).1 = .ok ()) :
    let h' := ((setTupleShape c elements).run.run h).2
    ∃ shape, h'.classes.shape? c = some shape ∧ shape.elements = elements ∧
      ∃ edge, h'.DerivedFromShape c shape edge := by
  have hfallback := repeatable_tupleFallback hs.wellFormed .tuple hitems
  rcases setTupleShape_cases h c elements with ⟨-, hrun⟩ | ⟨-, hder, -⟩ | ⟨-, ha, hrun⟩ |
    ⟨-, -, -, e, hrun⟩
  · rw [hrun] at hok
    cases hok
  · rw [hnot] at hder
    cases hder
  -- the class has got the edge over its joined items, and no other way to `tuple`
  · rw [hrun]
    have hjoined : (h.joined elements).2.Sound := hs.intern hfallback.le hfallback.wellFormed
    have hancestor : ¬ (h.joined elements).2.classes.Ancestor c (h.joined elements).1.head := by
      rw [show (h.joined elements).1.head = .tuple from hfallback.post.1]
      exact fun hpath => Bool.eq_false_iff.mp hnot (Registry.derives_iff.mpr hpath)
    have hc :
        ((h.joined elements).2.withBase c (h.joined elements).1).classes.contains c = true := by
      rw [contains_withBase]
      exact ha.known
    obtain ⟨shape, hshape, rfl⟩ := shape?_withShape_self hc elements
    refine ⟨shape, hshape, rfl, ⟨(h.joined shape.elements).1, (h.classes.bases c).length⟩,
      fun p => ?_, ?_⟩
    · refine .trans ?_ (hjoined.only_path_withBase ha hancestor p)
      rw [show (h.joined shape.elements).1.head = .tuple from hfallback.post.1]
      exact ⟨fun hp => hp.of_bases fun d => (bases_withShape _ c shape.elements d).symm,
        fun hp => hp.of_bases fun d => bases_withShape _ c shape.elements d⟩
    · exact hfallback.settled.finds hfallback.wellFormed
  · rw [hrun] at hok
    cases hok

/-! ## The two ways to a tuple -/

/-- Joined items that are an `Any` are one of the items. -/
theorem exists_item_of_isAny {es : List (Element TypeId)} {joined : TypeId} (hwf : t.WellFormed)
    (hroom : t.HasRoom) (hes : ∀ e ∈ es, t.Proper .anything e.item)
    (hjoined : t.Finds (union (es.map Element.item)) joined) (hany : joined.isAny = true) :
    ∃ e ∈ es, e.item = joined := by
  have hproper : ∀ m ∈ es.map Element.item, t.Proper .anything m := by
    intro m hm
    obtain ⟨e, he, rfl⟩ := List.mem_map.mp hm
    exact hes e he
  obtain ⟨⟨m, hm, hmem⟩, -⟩ := (hjoined.unites hwf hroom hproper).of_any hany
  obtain ⟨e, he, rfl⟩ := List.mem_map.mp hm
  exact ⟨e, he, ((hes e he).eq_of_mem_membersOf hmem hany).symm⟩

/-- If the items are no implied or error `Any`s, then no argument is an `Any` that comes before
their join. -/
theorem Sound.noAnyBefore_joined (hs : h.Sound) (hreg : h.types.Regular) (hroom : h.types.HasRoom)
    (hshape : h.classes.shape? i.head = some shape)
    (hedge : h.DerivedFromShape i.head shape edge)
    (hitems : ∀ e ∈ shape.elements, e.item ≠ .any .unannotated ∧ e.item ≠ .any .fromError) :
    ∀ x ∈ h.types.args edge.base, x.isAny = true →
      (h.mapper.environment h.types i).NoAnyBefore x := by
  intro x hx hany
  obtain ⟨-, -, joined, hargs, hjoined⟩ := finds_tupleFallback hedge.joins
  rw [hargs] at hx
  obtain rfl := List.mem_singleton.mp hx
  obtain ⟨e, he, rfl⟩ := exists_item_of_isAny hs.wellFormed hroom
    (fun e he => hreg.proper hs.wellFormed (hs.shapes_issued i.head shape hshape e he)) hjoined hany
  -- an item that is an `Any` is the explicit one
  obtain ⟨reason, hreason⟩ := exists_any_of_isAny hany
  rw [hreason]
  cases reason with
  | explicit => exact Substitution.noAnyBefore_explicit _
  | unannotated => exact absurd hreason (hitems e he).1
  | fromError => exact absurd hreason (hitems e he).2

/-- A class that is a tuple by the edge that its shape makes, and by no other edge, is seen as a
tuple in one way: the one answer is the only one of all answers, be the arguments what they may.
The shape decides, it has no implied or error `Any` for an item, the expansion stays above the
limit, and the tables do not run out of handles. -/
theorem Constructed.shape_agrees (hc : Constructed h) (hi : h.Fits c i h.types)
    (hshape : h.DecidedByShape c .tuple shape) (hedge : h.DerivedFromShape c shape edge)
    (hitems : ∀ e ∈ shape.elements, e.item ≠ .any .unannotated ∧ e.item ≠ .any .fromError)
    (hshallow : ∀ x ∈ h.types.args edge.base, ¬ h.types.Deep Limits.expansion x)
    (hshallow' : ∀ e ∈ shape.elements, ¬ h.types.Deep Limits.expansion e.item)
    {one : Instance} {answers : List Instance}
    (hrun : (oneThenAll h.mapper i .tuple).run h.types = ((one, answers), t))
    (hroom : t.HasRoom) : answers = [one] := by
  obtain ⟨hs, hreg⟩ := hc.sound_regular
  obtain ⟨rfl, hissued, harity⟩ := hi
  obtain ⟨hle, hwf, hone, hall⟩ := hshape.finds_of_oneThenAll hs hissued harity
    (show (oneThenAll (h.mapperUpTo none) i .tuple).run h.types = ((one, answers), t) from hrun)
  have hall' : t.Finds (h.mapper.supertypes i .tuple) answers := all_of_ne hshape.not_tuple ▸ hall
  obtain ⟨r, rfl, hcomposes⟩ := hall'.post (Mapper.repeatable_supertypes_of_only (m := h.mapper) rfl
    hs.acyclic_view hwf (hissued.of_le hle)
    (fun d base hbase => (hs.bases_issued d base hbase).of_le hle) hedge.only_path)
  -- going up the one edge is expanding it
  obtain ⟨r', hclimb, hr⟩ := (hcomposes.1.finds hwf).of_bind
  obtain rfl := hr.of_pure
  have hexpanded : t.Finds ((h.mapper.environment t i).applyInstance edge.base) r := hclimb
  rw [Mapper.environment_eq hissued hle] at hexpanded
  rw [hs.eq_joinedShape hreg hle hwf hroom hissued hshape.declared hedge.mem_bases hedge.joins
    (hs.noAnyBefore_joined hreg (hroom.of_le hle) hshape.declared hedge hitems) hshallow hshallow'
    hone hexpanded]

end

/-- `Pair[T, U]`, with arguments for `Pair[Any, Never]` at hand, the `Any` being an error. -/
def failedPair : Hierarchy :=
  { pair with types := ((Interner.apply ⟨3⟩ [.any .fromError, .never]).run pair.types).2 }

theorem constructed_failedPair : Constructed failedPair :=
  .next constructed_pair (.apply ⟨3⟩ [.any .fromError, .never] (by decide +kernel))

/-- What it is as a tuple: the one answer and all answers. -/
def failedPairAnswers : (Instance × List Instance) × Interner :=
  (oneThenAll failedPair.mapper ⟨⟨3⟩, ⟨4⟩⟩ .tuple).run failedPair.types

/-- By its shape and by the edge that came with it, it is the tuple of the error `Any`. -/
theorem failedPair_shape_agrees :
    failedPair.DecidedByShape ⟨3⟩ .tuple pairShape ∧
      failedPair.DerivedFromShape ⟨3⟩ pairShape ⟨⟨.tuple, ⟨3⟩⟩, 0⟩ ∧
      failedPairAnswers.1.2 = [failedPairAnswers.1.1] ∧
      failedPairAnswers.2.args failedPairAnswers.1.1 = [.any .fromError] := by
  have hfits : failedPair.Fits ⟨3⟩ ⟨⟨3⟩, ⟨4⟩⟩ failedPair.types :=
    ⟨rfl, by show 4 ≤ _; decide +kernel, by decide +kernel⟩
  have hshape : failedPair.DecidedByShape ⟨3⟩ .tuple pairShape := by
    refine ⟨rfl, by decide, by decide +kernel, ?_, rfl⟩
    exact ⟨⟨⟨42⟩, false⟩, List.mem_cons_self, ⟨⟨2⟩, "T"⟩, ⟨42⟩, .refl, by decide +kernel⟩
  have hedge : failedPair.DerivedFromShape ⟨3⟩ pairShape ⟨⟨.tuple, ⟨3⟩⟩, 0⟩ := by
    refine ⟨fun p => ?_, rfl⟩
    have hpaths : failedPair.mapper.view.edgePaths ⟨3⟩ .tuple = [[⟨⟨.tuple, ⟨3⟩⟩, 0⟩]] := by
      decide +kernel
    rw [← ClassView.mem_edgePaths_iff constructed_failedPair.sound_regular.1.acyclic_view, hpaths,
      List.mem_singleton]
  exact ⟨hshape, hedge, constructed_failedPair.shape_agrees hfits hshape hedge (by decide +kernel)
    (by decide +kernel) (by decide +kernel) rfl (hasRoom_of_size (by decide +kernel)),
    by decide +kernel⟩

end Supertypes.Hierarchy
