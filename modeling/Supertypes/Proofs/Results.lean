import Supertypes.Proofs.Composition
import Supertypes.Proofs.Reachable

/-!
# Instances as their supertypes in reachable hierarchies

- `Hierarchy.Reachable.mem_all_iff`: the results of `Mapper.all` are what going up the edge paths
  comes to, the first of them along the edge path that is declared first; without an edge path
  the one result has error `Any`s for arguments.
- `Hierarchy.Reachable.all_one_per_path_iff`: there is one result for each edge path, in order,
  if and only if there are no parallel edges on the way. `Hierarchy.Reachable.all_spread` says
  what there is in general.
-/

namespace Supertypes.Hierarchy

open Interner

variable {h : Hierarchy} {i : Instance} {target : ClassId}

/-! ## The view of a sound hierarchy -/

/-- The view of classes without cycles has none. -/
theorem acyclic_view_of (hacyclic : h.classes.Acyclic) : h.mapper.view.Acyclic where
  irrefl := hacyclic
  few := by
    -- only registered classes have base edges
    refine ⟨(List.range h.classes.size).map fun n => ⟨n + 1⟩, by simp [mapper, Registry.view], ?_⟩
    intro c hc
    obtain ⟨base, hbase⟩ := List.exists_mem_of_ne_nil _ hc
    obtain ⟨info, hinfo, -⟩ := Registry.get?_of_mem_bases hbase
    obtain ⟨n⟩ := c
    cases n with
    | zero => cases hinfo
    | succ n =>
      obtain ⟨hlt, -⟩ := List.getElem?_eq_some_iff.mp hinfo
      exact List.mem_map.mpr ⟨n, List.mem_range.mpr hlt, rfl⟩

section

variable [Digest TypeData]

theorem Sound.acyclic_view (hs : h.Sound) : h.mapper.view.Acyclic :=
  acyclic_view_of hs.acyclic

omit [Digest TypeData] in
/-- There is an edge path to each ancestor. -/
theorem edgePath_iff_ancestor {c : ClassId} :
    (∃ p, h.mapper.view.EdgePath target c p) ↔ h.classes.Ancestor c target :=
  ClassView.exists_edgePath_iff

/-- Mapping to another class. -/
theorem all_of_ne (hne : i.head ≠ target) :
    h.mapper.all i target = h.mapper.supertypes i target := by
  unfold Mapper.all
  rw [if_neg hne]

/-- With parallel edges the results along a path of classes are those of all edge paths through
these classes, and this is so for every edge path in turn. -/
theorem Reachable.all_spread (hr : Reachable h) (hi : h.types.IssuedList i.args)
    (hancestor : h.classes.Ancestor i.head target) :
    Repeatable h.types (h.mapper.all i target) fun results t =>
      List.Forall₂ (fun p r => h.mapper.Composes i p r t)
        (ClassView.spread (h.mapper.view.edgePaths i.head target)) results := by
  have hs := hr.sound
  -- no class is its own ancestor
  have hne : i.head ≠ target := by
    rintro rfl
    exact hs.acyclic i.head hancestor
  rw [all_of_ne hne]
  exact Mapper.repeatable_supertypes rfl hs.acyclic_view hs.wellFormed hi hs.bases_issued
    (edgePath_iff_ancestor.mpr hancestor)

/-- The results for an ancestor are what going up the edge paths comes to. -/
theorem Reachable.mem_all_of_ancestor (hr : Reachable h) (hi : h.types.IssuedList i.args)
    (hancestor : h.classes.Ancestor i.head target) (r : Instance) :
    let t := ((h.mapper.all i target).run h.types).2
    r ∈ ((h.mapper.all i target).run h.types).1 ↔
      ∃ p, h.mapper.view.EdgePath target i.head p ∧ (h.mapper.compose i p).run t = (r, t) := by
  intro t
  have hall := hr.all_spread hi hancestor
  have hwf : t.WellFormed := hall.wellFormed
  have hmem : ∀ {p}, p ∈ ClassView.spread (h.mapper.view.edgePaths i.head target) ↔
      h.mapper.view.EdgePath target i.head p :=
    ClassView.mem_spread.trans (ClassView.mem_edgePaths_iff hr.sound.acyclic_view)
  constructor
  · intro hmember
    obtain ⟨p, hp, hcomposes⟩ := exists_of_mem_right hall.post hmember
    exact ⟨p, hmem.mp hp, (hcomposes.1.run_iff hwf).mpr rfl⟩
  · rintro ⟨p, hp, hrun⟩
    obtain ⟨r', hr', hcomposes⟩ := exists_of_mem_left hall.post (hmem.mpr hp)
    rw [← (hcomposes.1.run_iff hwf).mp hrun]
    exact hr'

/-- The first result for an ancestor goes up the edge path that is declared first. -/
theorem Reachable.all_first (hr : Reachable h) (hi : h.types.IssuedList i.args)
    (hancestor : h.classes.Ancestor i.head target) :
    let t := ((h.mapper.all i target).run h.types).2
    ∃ p r rest, ((h.mapper.all i target).run h.types).1 = r :: rest ∧
      (h.mapper.compose i p).run t = (r, t) ∧ h.mapper.view.EdgePath target i.head p ∧
      ∀ q, h.mapper.view.EdgePath target i.head q →
        q = p ∨ BaseEdge.places p < BaseEdge.places q := by
  intro t
  have hall := hr.all_spread hi hancestor
  have hresults := hall.post
  have hascend := h.mapper.view.edgePaths_ascend i.head target
  -- in a reachable hierarchy the paths that are listed are all there are
  have hlisted : ∀ q, q ∈ h.mapper.view.edgePaths i.head target ↔
      h.mapper.view.EdgePath target i.head q :=
    fun q => ClassView.mem_edgePaths_iff hr.sound.acyclic_view
  cases hpaths : h.mapper.view.edgePaths i.head target with
  | nil =>
    obtain ⟨p, hp⟩ := edgePath_iff_ancestor.mpr hancestor
    rw [← hlisted p, hpaths] at hp
    exact absurd hp List.not_mem_nil
  | cons p paths =>
    obtain ⟨more, hspread⟩ := ClassView.spread_cons p paths
    rw [hpaths, hspread] at hresults
    -- the first result comes from the first path
    obtain ⟨r, rest, hcomposes, -, heq⟩ := List.forall₂_cons_left_iff.mp hresults
    rw [hpaths] at hascend hlisted
    refine ⟨p, r, rest, heq, (hcomposes.1.run_iff hall.wellFormed).mpr rfl,
      (hlisted p).mp List.mem_cons_self, ?_⟩
    intro q hq
    rcases List.mem_cons.mp ((hlisted q).mpr hq) with hqp | hmem
    · exact .inl hqp
    · exact .inr (List.rel_of_pairwise_cons hascend hmem)

/-- The result for another class that is no ancestor. -/
theorem Reachable.mem_all_of_not_ancestor (hr : Reachable h) (hne : i.head ≠ target)
    (hpath : ¬ ∃ p, h.mapper.view.EdgePath target i.head p) (r : Instance) :
    let t := ((h.mapper.all i target).run h.types).2
    r ∈ ((h.mapper.all i target).run h.types).1 ↔
      (Interner.apply target (List.replicate (h.classes.params target).length
        (.any .fromError))).run t = (r, t) := by
  intro t
  have hall := Mapper.repeatable_supertypes_of_no_path (m := h.mapper) rfl hr.sound.wellFormed hpath
  rw [← all_of_ne hne] at hall
  obtain ⟨only, hresults, hsettled⟩ := hall.post
  have hrun : (Interner.apply target (List.replicate (h.classes.params target).length
      (.any .fromError))).run t = (r, t) ↔ only = r := hsettled.run_iff hall.wellFormed
  rw [hrun, hresults, List.mem_singleton]
  exact eq_comm

/-- An instance is seen as another class just as its edge paths to that class make it, first
along the edge path whose edges are declared first. -/
theorem Reachable.mem_all_iff (hr : Reachable h) (hi : h.types.IssuedList i.args)
    (hne : i.head ≠ target) :
    let results := ((h.mapper.all i target).run h.types).1
    let t := ((h.mapper.all i target).run h.types).2
    (∀ r, r ∈ results ↔
      (∃ p, h.mapper.view.EdgePath target i.head p ∧ (h.mapper.compose i p).run t = (r, t)) ∨
      (¬ ∃ p, h.mapper.view.EdgePath target i.head p) ∧
        (Interner.apply target (List.replicate (h.classes.params target).length
          (.any .fromError))).run t = (r, t)) ∧
    ((∃ p, h.mapper.view.EdgePath target i.head p) →
      ∃ p r rest, results = r :: rest ∧ (h.mapper.compose i p).run t = (r, t) ∧
        h.mapper.view.EdgePath target i.head p ∧
        ∀ q, h.mapper.view.EdgePath target i.head q →
          q = p ∨ BaseEdge.places p < BaseEdge.places q) := by
  intro results t
  refine ⟨fun r => ?_, fun hpath => ?_⟩
  · by_cases hpath : ∃ p, h.mapper.view.EdgePath target i.head p
    · have hmem := hr.mem_all_of_ancestor hi (edgePath_iff_ancestor.mp hpath) r
      exact hmem.trans ⟨.inl, fun hor => hor.resolve_right fun hno => hno.1 hpath⟩
    · have hmem := hr.mem_all_of_not_ancestor hne hpath r
      refine hmem.trans ⟨fun hrun => .inr ⟨hpath, hrun⟩, ?_⟩
      rintro (⟨p, hp, -⟩ | ⟨-, hrun⟩)
      · exact absurd ⟨p, hp⟩ hpath
      · exact hrun
  · exact hr.all_first hi (edgePath_iff_ancestor.mp hpath)

end

theorem box_first_result_as_tuple :
    let results := ((box.mapper.all ⟨⟨3⟩, ⟨1⟩⟩ .tuple).run box.types).1
    let t := ((box.mapper.all ⟨⟨3⟩, ⟨1⟩⟩ .tuple).run box.types).2
    ∃ p r rest, results = r :: rest ∧ (box.mapper.compose ⟨⟨3⟩, ⟨1⟩⟩ p).run t = (r, t) ∧
      box.mapper.view.EdgePath .tuple ⟨3⟩ p ∧
      ∀ q, box.mapper.view.EdgePath .tuple ⟨3⟩ q →
        q = p ∨ BaseEdge.places p < BaseEdge.places q :=
  have hissued : box.types.IssuedList (Instance.mk ⟨3⟩ ⟨1⟩).args := Nat.le_refl 1
  have hne : (Instance.mk ⟨3⟩ ⟨1⟩).head ≠ .tuple := by decide
  (reachable_box.mem_all_iff hissued hne).2
    ⟨[⟨⟨.tuple, ⟨1⟩⟩, 0⟩], .last (by decide +kernel) rfl⟩

/-- There is one result for each edge path, namely what going up that path comes to, if and only
if no class on the way has two edges to the same class. -/
theorem Reachable.all_one_per_path_iff [Digest TypeData] (hr : Reachable h)
    (hi : h.types.IssuedList i.args) (hancestor : h.classes.Ancestor i.head target) :
    let results := ((h.mapper.all i target).run h.types).1
    let t := ((h.mapper.all i target).run h.types).2
    let paths := h.mapper.view.edgePaths i.head target
    (∀ p, p ∈ paths ↔ h.mapper.view.EdgePath target i.head p) ∧
    paths.Pairwise (fun p q => BaseEdge.places p < BaseEdge.places q) ∧
    h.mapper.view.paths none i.head target = paths.map BaseEdge.classes ∧
    (List.Forall₂ (fun p r => (h.mapper.compose i p).run t = (r, t)) paths results ↔
      h.mapper.view.NoParallelEdges i.head target) := by
  intro results t paths
  have hview := hr.sound.acyclic_view
  have hall := hr.all_spread hi hancestor
  have hresults : List.Forall₂ (fun p r => h.mapper.Composes i p r t)
      (ClassView.spread paths) results := hall.post
  refine ⟨fun p => ClassView.mem_edgePaths_iff hview, h.mapper.view.edgePaths_ascend i.head target,
    h.mapper.view.allPaths_eq i.head target, ?_⟩
  rw [← ClassView.nodup_allPaths_iff hview, ClassView.allPaths_eq]
  constructor
  · intro hone
    -- one result for each path leaves no room for parallel ones
    refine ClassView.nodup_of_length_spread ?_
    rw [hresults.length_eq, hone.length_eq]
  · intro hnodup
    rw [ClassView.spread_of_nodup hnodup] at hresults
    exact hresults.imp fun p r hr => (hr.1.run_iff hall.wellFormed).mpr rfl

theorem box_one_result_as_object :
    let results := ((box.mapper.all ⟨⟨3⟩, ⟨1⟩⟩ .object).run box.types).1
    let t := ((box.mapper.all ⟨⟨3⟩, ⟨1⟩⟩ .object).run box.types).2
    let paths := box.mapper.view.edgePaths ⟨3⟩ .object
    List.Forall₂ (fun p r => (box.mapper.compose ⟨⟨3⟩, ⟨1⟩⟩ p).run t = (r, t)) paths results ↔
      box.mapper.view.NoParallelEdges ⟨3⟩ .object :=
  have hissued : box.types.IssuedList (Instance.mk ⟨3⟩ ⟨1⟩).args := Nat.le_refl 1
  have hancestor : box.classes.Ancestor (Instance.mk ⟨3⟩ ⟨1⟩).head .object :=
    Registry.derives_iff.mp (by decide +kernel)
  (reachable_box.all_one_per_path_iff hissued hancestor).2.2.2

/-- The class `Box[T]` over `tuple[T]` and over `tuple[Never]`. -/
def twofoldBox : Hierarchy :=
  let types := ((internTypes [.never]).run box.types).2
  let types := ((internTypes [.any .explicit]).run types).2
  ((Hierarchy.addBase ⟨3⟩ ⟨.tuple, ⟨2⟩⟩).run.run { box with types }).2

theorem reachable_twofoldBox : Reachable twofoldBox := by
  refine .next (.next (.next reachable_box (.intern _ (.types [.never] ?_)))
    (.intern _ (.types [.any .explicit] ?_))) (.addBase ⟨3⟩ ⟨.tuple, ⟨2⟩⟩ ?_)
  · simp
  · simp
  · show 2 ≤ _
    decide +kernel

/-- Each of the two edges counts twice, once for either path. -/
theorem twofoldBox_results_repeat :
    Reachable twofoldBox ∧ twofoldBox.types.IssuedList ⟨3⟩ ∧
    twofoldBox.classes.Ancestor ⟨3⟩ .tuple ∧
    twofoldBox.mapper.view.paths none ⟨3⟩ .tuple = [[.tuple], [.tuple]] ∧
    ((twofoldBox.mapper.all ⟨⟨3⟩, ⟨3⟩⟩ .tuple).run twofoldBox.types).1 =
      [⟨.tuple, ⟨3⟩⟩, ⟨.tuple, ⟨2⟩⟩, ⟨.tuple, ⟨3⟩⟩, ⟨.tuple, ⟨2⟩⟩] ∧
    ((twofoldBox.mapper.all ⟨⟨3⟩, ⟨3⟩⟩ .tuple).run twofoldBox.types).1.length ≠
      (twofoldBox.mapper.view.paths none ⟨3⟩ .tuple).length :=
  ⟨reachable_twofoldBox, Nat.le_refl 3, Registry.derives_iff.mp (by decide +kernel),
    by decide +kernel, by decide +kernel, by decide +kernel⟩

end Supertypes.Hierarchy
