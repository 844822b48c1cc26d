import Supertypes.Proofs.Growth
import Supertypes.Proofs.PathLists
import Supertypes.Proofs.RaisedLimit

/-!
# The bases of tuple-shaped classes

- `Hierarchy.TuplesDerive`: `tuple` has the base `object`, and a class with a tuple shape is
  marked and derives from `tuple`. `Hierarchy.Growth.tuplesDerive`: every change keeps this.
- `Mapper.asTuple`: the answer for `tuple` by the tuple shape or along base edges, if there is
  one.
- `Hierarchy.Edited.tuple_shaped`: after whatever calls, a class with a tuple shape stands below
  `tuple`, and its instances are never seen as `tuple` with error arguments.
-/

namespace Supertypes

/-! ## Answers that do not fall back -/

section

variable [Digest TypeData]

namespace Mapper

/-- What an instance is as a tuple, by its shape or else along the first path; none where there
is no path, so that error arguments would have to do. -/
def asTuple (m : Mapper) (i : Instance) : Interning (Option Instance) := do
  match ← m.viaShape i with
  | some mapped => return some mapped
  | none => return (← m.alongPaths i m.view.tuple).head?

variable {m : Mapper} {i : Instance} {target : ClassId}

/-- If there are paths the one answer by base edges is along the first of them. -/
theorem viaEdges_of_paths (hparams : m.view.params target ≠ [])
    (hpaths : m.view.paths m.limit i.head target ≠ []) (t : Interner) :
    (some <$> m.viaEdges i target).run t = (List.head? <$> m.alongPaths i target).run t := by
  obtain ⟨first, rest, hfirst⟩ := List.exists_cons_of_ne_nil (alongPaths_ne_nil hpaths t)
  rcases hrun : (m.alongPaths i target).run t with ⟨results, t'⟩
  obtain rfl : results = first :: rest := by rw [← hfirst, hrun]
  unfold viaEdges
  rw [if_neg (by simpa using hparams), StateT.run_map, StateT.run_map, StateT.run_bind,
    supertypes_of_paths hpaths, hrun]
  rfl

/-- If there are paths to `tuple`, the one answer does not fall back. -/
theorem supertype_tuple_of_paths (hne : i.head ≠ m.view.tuple)
    (hparams : m.view.params m.view.tuple ≠ [])
    (hpaths : m.view.paths m.limit i.head m.view.tuple ≠ []) (t : Interner) :
    (some <$> m.supertype i m.view.tuple).run t = (m.asTuple i).run t := by
  rw [supertype_eq, if_neg hne, if_pos rfl]
  unfold asTuple
  rw [StateT.run_map, StateT.run_bind, StateT.run_bind]
  obtain ⟨mapped, t'⟩ := (m.viaShape i).run t
  cases mapped with
  | some r => rfl
  | none => exact viaEdges_of_paths hparams hpaths t'

end Mapper

end

namespace Hierarchy

variable {h h' : Hierarchy} {c d : ClassId} {info : ClassInfo}

/-! ## Declarations after a change -/

/-- A new edge changes neither shapes nor marks. -/
theorem get?_withBase {base : Instance}
    (hinfo : (h.withBase c base).classes.get? d = some info) :
    ∃ old, h.classes.get? d = some old ∧ old.shape = info.shape ∧ old.flags = info.flags := by
  unfold withBase at hinfo
  rw [Registry.get?_update] at hinfo
  obtain ⟨old, hold, rfl⟩ := Option.map_eq_some_iff.mp hinfo
  refine ⟨old, hold, ?_⟩
  split <;> exact ⟨rfl, rfl⟩

section

variable [Digest TypeData]

/-- A class with a shape is the one that has got it, which is marked, or had a shape and the same
mark before. -/
theorem get?_withShape {elements : List (Element TypeId)}
    (hinfo : (h.withShape c elements).classes.get? d = some info)
    (hshape : info.shape.isSome = true) :
    d = c ∧ info.flags.tupleShaped = true ∨
      ∃ old, h.classes.get? d = some old ∧ old.shape.isSome = true ∧
        old.flags.tupleShaped = info.flags.tupleShaped := by
  unfold withShape at hinfo
  rw [Registry.get?_markRecursion, Registry.get?_update, Option.map_map] at hinfo
  obtain ⟨old, hold, heq⟩ := Option.map_eq_some_iff.mp hinfo
  rw [Function.comp_apply] at heq
  subst heq
  rw [Registry.isSome_shape_markClass] at hshape
  rw [Registry.tupleShaped_markClass]
  -- the class that has got the shape, or another one
  by_cases hd : d = c
  · refine .inl ⟨hd, ?_⟩
    rw [if_pos hd]
  · rw [if_neg hd] at hshape ⊢
    exact .inr ⟨old, hold, hshape, rfl⟩

/-! ## The invariant -/

/-- `tuple` takes one argument and has the base `object`, and classes with a tuple shape are
marked and derive from `tuple`. -/
structure TuplesDerive (h : Hierarchy) : Prop where
  known : h.classes.contains .tuple = true
  unary : (h.classes.params .tuple).length = 1
  root : .object ∈ h.classes.parents .tuple
  marked : ∀ {c info}, h.classes.get? c = some info → info.shape.isSome = true →
    info.flags.tupleShaped = true
  derived : ∀ {c info}, h.classes.get? c = some info → info.shape.isSome = true →
    h.classes.Ancestor c .tuple

omit [Digest TypeData] in
theorem TuplesDerive.initial : ({} : Hierarchy).TuplesDerive := by
  have hnone : ∀ {c info}, Registry.builtin.get? c = some info → info.shape.isSome ≠ true := by
    intro c info hinfo
    have hshape := Registry.shape?_builtin c
    unfold Registry.shape? at hshape
    rw [hinfo] at hshape
    simpa using hshape
  exact {
    known := rfl
    unary := rfl
    root := List.mem_singleton_self _
    marked := fun hinfo hshape => absurd hshape (hnone hinfo)
    derived := fun hinfo hshape => absurd hshape (hnone hinfo) }

/-- A class with a shape after a change is marked and derives from `tuple`, if classes with a
shape did before. -/
theorem Growth.shaped (hgrowth : Growth h h') (ht : h.TuplesDerive)
    (hinfo : h'.classes.get? c = some info) (hshape : info.shape.isSome = true) :
    info.flags.tupleShaped = true ∧ h'.classes.Ancestor c .tuple := by
  have hold : ∀ {old}, h.classes.get? c = some old → old.shape.isSome = true →
      old.flags.tupleShaped = true ∧ h'.classes.Ancestor c .tuple :=
    fun hget hshape => ⟨ht.marked hget hshape, hgrowth.ancestor (ht.derived hget hshape)⟩
  cases hgrowth with
  | types types => exact hold hinfo hshape
  | freshParam name => exact hold hinfo hshape
  | add name params flags _ =>
    rcases Registry.get?_add_cases h.classes { name, params, flags } c with ⟨-, hnew⟩ | heq
    · -- a new class has no shape
      obtain rfl := Option.some.inj (hnew.symm.trans hinfo)
      simp at hshape
    · exact hold (heq.symm.trans hinfo) hshape
  | withBase d base _ _ =>
    obtain ⟨old, hget, hshape', hflags⟩ := get?_withBase hinfo
    rw [← hflags]
    exact hold hget (hshape' ▸ hshape)
  | withShape d elements hder =>
    rcases get?_withShape hinfo hshape with ⟨rfl, hmarked⟩ | ⟨old, hget, hshape', hmarked⟩
    · -- the class derives from `tuple` already
      exact ⟨hmarked, (Growth.withShape c elements hder).ancestor (Registry.derives_iff.mp hder)⟩
    · rw [← hmarked]
      exact hold hget hshape'

theorem Growth.tuplesDerive (hgrowth : Growth h h') (ht : h.TuplesDerive) : h'.TuplesDerive where
  known := (hgrowth.params_eq ht.known).1
  unary := by rw [(hgrowth.params_eq ht.known).2, ht.unary]
  root := hgrowth.parents_subset .tuple ht.root
  marked := fun hinfo hshape => (hgrowth.shaped ht hinfo hshape).1
  derived := fun hinfo hshape => (hgrowth.shaped ht hinfo hshape).2

theorem Edited.tuplesDerive (he : Edited h) : h.TuplesDerive :=
  kept_by_calls he .initial fun _ _ hgrowth => hgrowth.tuplesDerive

theorem Edited.ancestor_of_shape {shape : TupleShape} (he : Edited h)
    (hshape : h.classes.shape? c = some shape) : h.classes.Ancestor c .tuple := by
  obtain ⟨info, hinfo, hstored⟩ := Option.bind_eq_some_iff.mp hshape
  exact he.tuplesDerive.derived hinfo (Option.isSome_of_eq_some hstored)

/-! ## Classes with a tuple shape -/

/-- After whatever calls, a class with a tuple shape is marked, stands properly below `tuple`,
and has a path of base edges to it. Its instances are seen as `tuple` by the shape or along such
paths, whatever has been interned, and never with the arguments of an error. -/
theorem Edited.tuple_shaped (he : Edited h) (hinfo : h.classes.get? c = some info)
    (hshape : info.shape.isSome = true) :
    info.flags.tupleShaped = true ∧
    c ≠ .object ∧ c ≠ .tuple ∧ ¬ h.classes.Ancestor .tuple c ∧
    (∃ p, h.classes.view.EdgePath .tuple c p) ∧
    ∀ i types, i.head = c →
      (some <$> h.mapper.supertype i .tuple).run types = (h.mapper.asTuple i).run types ∧
      (h.mapper.supertypes i .tuple).run types = (h.mapper.alongPaths i .tuple).run types ∧
      (h.mapper.all i .tuple).run types = (h.mapper.alongPaths i .tuple).run types ∧
      ((h.mapper.alongPaths i .tuple).run types).1 ≠ [] := by
  have ht := he.tuplesDerive
  have hancestor := ht.derived hinfo hshape
  have hview := acyclic_view_of he.acyclic
  -- a class above `tuple`, or `tuple` itself, would be its own ancestor
  have hnot : ¬ h.classes.Ancestor .tuple c :=
    fun habove => he.acyclic c (hancestor.trans habove)
  have hne : c ≠ .tuple := by
    rintro rfl
    exact he.acyclic _ hancestor
  refine ⟨ht.marked hinfo hshape, ?_, hne, hnot, edgePath_iff_ancestor.mpr hancestor, ?_⟩
  · rintro rfl
    exact hnot (.single ht.root)
  · rintro i types rfl
    have hpaths : h.mapper.view.paths h.mapper.limit i.head .tuple ≠ [] :=
      (ClassView.allPaths_ne_nil_iff hview).mpr hancestor
    have hparams : h.mapper.view.params .tuple ≠ [] :=
      List.ne_nil_of_length_eq_add_one ht.unary
    refine ⟨Mapper.supertype_tuple_of_paths hne hparams hpaths types,
      Mapper.supertypes_of_paths hpaths types, ?_, Mapper.alongPaths_ne_nil hpaths types⟩
    rw [all_of_ne hne]
    exact Mapper.supertypes_of_paths hpaths types

end

/-- The class `Point` over `(Never)`, after a shape for `tuple` itself has been refused. -/
def point : Hierarchy :=
  let h := ((Hierarchy.register "Point" [] {}).run.run {}).2
  let h := ((Hierarchy.setTupleShape .tuple [.required .never]).run.run h).2
  ((Hierarchy.setTupleShape ⟨3⟩ [.required .never]).run.run h).2

theorem edited_point : Edited point :=
  ((Relation.ReflTransGen.single (.register "Point" [] {})).tail
    (.setTupleShape .tuple [.required .never])).tail (.setTupleShape ⟨3⟩ [.required .never])

theorem point_tuple_shaped :
    ∃ info, point.classes.get? ⟨3⟩ = some info ∧ info.shape.isSome = true ∧
      info.bases = [⟨.tuple, ⟨1⟩⟩] ∧ info.flags.tupleShaped = true ∧
      (∃ p, point.classes.view.EdgePath .tuple ⟨3⟩ p) ∧
      (some <$> point.mapper.supertype (.bare ⟨3⟩) .tuple).run point.types =
        (point.mapper.asTuple (.bare ⟨3⟩)).run point.types := by
  have hinfo : point.classes.get? ⟨3⟩ = some {
      name := "Point"
      params := []
      bases := [⟨.tuple, ⟨1⟩⟩]
      shape := some { elements := [.required .never] }
      flags := { tupleShaped := true } } := by
    decide +kernel
  obtain ⟨hmarked, -, -, -, hpath, hanswers⟩ := edited_point.tuple_shaped hinfo rfl
  exact ⟨_, hinfo, rfl, rfl, hmarked, hpath, (hanswers (.bare ⟨3⟩) point.types rfl).1⟩

end Hierarchy

end Supertypes
