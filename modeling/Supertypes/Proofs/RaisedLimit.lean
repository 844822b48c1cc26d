import Supertypes.Proofs.GroundAnswers
import Supertypes.Proofs.Results
import Supertypes.Proofs.StepLimit

/-!
# Raising the limit on the length of paths

With a higher limit there are more edge paths to find, but a search makes more attempts before it
comes to a path that a lower limit permits already, and so may run out of steps on the way.

- `Hierarchy.Reachable.path_kept`: a path is kept under a higher limit just if the attempts for
  an edge path behind it are within the limit on steps, and so if the search does not run out of
  steps; and an ancestor with a path is answered along paths.
- `Hierarchy.tower`: a hierarchy in which a search for short paths finds one and a search for
  longer paths finds none, for it spends its steps below a base edge that does not lead to the
  target.
-/

namespace Supertypes

/-! ## Paths within both limits -/

namespace ClassView

variable {view : ClassView} {target c : ClassId} {path : List ClassId} {length : Nat}

/-- What is listed is within the length. -/
theorem length_le_of_mem {p : List BaseEdge} (hp : p ∈ view.edgePathsFrom target length c) :
    p.length ≤ length := by
  induction length generalizing c p with
  | zero => exact absurd hp List.not_mem_nil
  | succ length ih =>
    obtain ⟨e, -, ⟨-, rfl⟩ | ⟨-, tail, htail, rfl⟩⟩ := mem_edgePathsFrom_succ.mp hp
    · exact Nat.le_add_left 1 length
    · exact Nat.succ_le_succ (ih htail)

/-- A path is found just if some edge path behind it is short enough and takes few enough
attempts. -/
theorem mem_boundedPaths_iff (hview : view.Acyclic) {limit : Nat} :
    path ∈ view.boundedPaths limit c target ↔
      path.length ≤ limit ∧ ∃ p, view.EdgePath target c p ∧ BaseEdge.classes p = path ∧
        view.attemptsTo target limit c p ≤ Limits.steps := by
  rw [boundedPaths_eq hview, List.mem_map]
  constructor
  · rintro ⟨p, hp, rfl⟩
    obtain ⟨hmem, hattempts⟩ := List.mem_filter.mp hp
    refine ⟨?_, p, edgePath_of_mem hmem, rfl, of_decide_eq_true hattempts⟩
    rw [BaseEdge.length_classes]
    exact length_le_of_mem hmem
  · rintro ⟨hlen, p, hp, rfl, hattempts⟩
    rw [BaseEdge.length_classes] at hlen
    exact ⟨p, List.mem_filter.mpr ⟨hp.mem hview hlen, decide_eq_true hattempts⟩, rfl⟩

/-- A search that does not run out of steps finds every path that is short enough. -/
theorem mem_boundedPaths_of_steps (hview : view.Acyclic) {limit : Nat} {p : List BaseEdge}
    (hp : view.EdgePath target c p) (hlen : p.length ≤ limit)
    (hsteps : (view.spentGuard limit c target).iterations ≤ Limits.steps) :
    BaseEdge.classes p ∈ view.boundedPaths limit c target := by
  have hattempts := (spentGuard_iterations_le_iff hview limit c target).mp hsteps
  refine (mem_boundedPaths_iff hview).mpr ⟨?_, p, hp, rfl, ?_⟩
  · rwa [BaseEdge.length_classes]
  · exact Nat.le_trans (attemptsTo_le_attempts (hp.mem hview hlen)) hattempts

end ClassView

/-! ## Answers along paths -/

namespace Mapper

/-- The results along all paths that are found. -/
def alongPaths [Digest TypeData] (m : Mapper) (i : Instance) (target : ClassId) :
    Interning (List Instance) := do
  return (← (m.view.paths m.limit i.head target).mapM (m.along i)).flatten

variable {σ α β : Type}

theorem mapM_run_ne_nil (f : α → StateM σ β) {xs : List α} (hne : xs ≠ []) (s : σ) :
    ((xs.mapM f).run s).1 ≠ [] := by
  obtain ⟨x, rest, rfl⟩ := List.exists_cons_of_ne_nil hne
  rw [List.mapM_cons]
  exact List.cons_ne_nil _ _

theorem flatten_mapM_run_ne_nil {f : α → StateM σ (List β)} (hf : ∀ x s, ((f x).run s).1 ≠ [])
    {xs : List α} (hne : xs ≠ []) (s : σ) : ((xs.mapM f).run s).1.flatten ≠ [] := by
  obtain ⟨x, rest, rfl⟩ := List.exists_cons_of_ne_nil hne
  rw [List.mapM_cons]
  exact List.append_ne_nil_of_left_ne_nil (hf x s) _

theorem return_one_ne_nil (x : StateM σ β) (s : σ) : ((do return [← x]).run s).1 ≠ [] :=
  List.cons_ne_nil _ _

variable [Digest TypeData]

/-- There is a result for each edge, and one if there are none. -/
theorem direct_ne_nil (m : Mapper) (i : Instance) (target : ClassId) (t : Interner) :
    ((m.direct i target).run t).1 ≠ [] := by
  unfold direct
  split
  · exact return_one_ne_nil _ t
  · rename_i edges hne
    rw [StateT.run_bind]
    exact mapM_run_ne_nil _ hne t

theorem onward_ne_nil (m : Mapper) {reached : List Instance} (hne : reached ≠ [])
    (target : ClassId) (t : Interner) : ((m.onward reached target).run t).1 ≠ [] := by
  unfold onward
  rw [StateT.run_bind]
  exact flatten_mapM_run_ne_nil (fun i => m.direct_ne_nil i target) hne t

/-- Going up a path comes to something, whatever the path. -/
theorem along_ne_nil (m : Mapper) (i : Instance) (path : List ClassId) (t : Interner) :
    ((m.along i path).run t).1 ≠ [] := by
  rw [along_eq]
  -- so does going on from any instances that have been reached
  suffices h : ∀ reached t, reached ≠ [] → ((path.foldlM m.onward reached).run t).1 ≠ [] from
    h [i] t (List.cons_ne_nil _ _)
  induction path with
  | nil => exact fun reached t hne => hne
  | cons target path ih =>
    intro reached t hne
    rw [List.foldlM_cons]
    exact ih _ _ (m.onward_ne_nil hne target t)

theorem alongPaths_ne_nil {m : Mapper} {i : Instance} {target : ClassId}
    (hne : m.view.paths m.limit i.head target ≠ []) (t : Interner) :
    ((m.alongPaths i target).run t).1 ≠ [] := by
  unfold alongPaths
  rw [StateT.run_bind]
  exact flatten_mapM_run_ne_nil (m.along_ne_nil i) hne t

/-- If there are paths, an ancestor is answered along them. -/
theorem supertypes_of_paths {m : Mapper} {i : Instance} {target : ClassId}
    (hne : m.view.paths m.limit i.head target ≠ []) (t : Interner) :
    (m.supertypes i target).run t = (m.alongPaths i target).run t := by
  have hfound := flatten_mapM_run_ne_nil (m.along_ne_nil i) hne t
  unfold supertypes alongPaths
  rw [StateT.run_bind, StateT.run_bind]
  revert hfound
  generalize ((m.view.paths m.limit i.head target).mapM (m.along i)).run t = found
  intro hfound
  change StateT.run _ found.2 = _
  split
  · rename_i hnil
    exact absurd hnil hfound
  · rfl

/-- Without a path the answer has error arguments. -/
theorem supertypes_of_no_paths {m : Mapper} {i : Instance} {target : ClassId}
    (hnil : m.view.paths m.limit i.head target = []) :
    m.supertypes i target = do return [← m.anyInstance target .fromError] := by
  unfold supertypes
  rw [hnil]
  rfl

end Mapper

namespace Hierarchy

open Interner

variable {h : Hierarchy} {target c : ClassId} {path : List ClassId}

theorem Reachable.acyclic_view [Digest TypeData] (hr : Reachable h) : h.classes.view.Acyclic :=
  hr.sound.acyclic_view

/-- A path that a search finds is found under a higher limit too, unless the search then runs out
of steps before it comes to the path; and as long as a path is found the ancestor is answered
along paths, not with error arguments. -/
theorem Reachable.path_kept [Digest TypeData] (hr : Reachable h) {m n : Nat} (hmn : m ≤ n)
    (hpath : path ∈ h.classes.view.paths (some m) c target) :
    (path ∈ h.classes.view.paths (some n) c target ↔
      ∃ p, h.classes.view.EdgePath target c p ∧ BaseEdge.classes p = path ∧
        h.classes.view.attemptsTo target n c p ≤ Limits.steps) ∧
    ((h.classes.view.spentGuard n c target).iterations ≤ Limits.steps →
      path ∈ h.classes.view.paths (some n) c target) ∧
    (path ∈ h.classes.view.paths (some n) c target → ∀ args t,
      let up := h.mapperUpTo (some n)
      (up.supertypes ⟨c, args⟩ target).run t = (up.alongPaths ⟨c, args⟩ target).run t ∧
        ((up.alongPaths ⟨c, args⟩ target).run t).1 ≠ []) := by
  have hview := hr.acyclic_view
  obtain ⟨hlen, p, hp, hclasses, -⟩ := (ClassView.mem_boundedPaths_iff hview).mp hpath
  have hlen' : path.length ≤ n := Nat.le_trans hlen hmn
  refine ⟨?_, ?_, ?_⟩
  · exact (ClassView.mem_boundedPaths_iff hview).trans (and_iff_right hlen')
  · intro hsteps
    rw [← hclasses] at hlen' ⊢
    rw [BaseEdge.length_classes] at hlen'
    exact ClassView.mem_boundedPaths_of_steps hview hp hlen' hsteps
  · intro hkept args t
    have hpaths := List.ne_nil_of_mem hkept
    exact ⟨Mapper.supertypes_of_paths hpaths t, Mapper.alongPaths_ne_nil hpaths t⟩

theorem box_path_kept : [.tuple, .object] ∈ box.classes.view.paths (some 256) ⟨3⟩ .object :=
  have hpath : [.tuple, .object] ∈ box.classes.view.paths (some 2) ⟨3⟩ .object := by decide +kernel
  (reachable_box.path_kept (show 2 ≤ 256 by decide) hpath).2.1 (by decide +kernel)

/-! ## A path that is lost -/

variable {h : Hierarchy}

/-- With further classes without parameters. -/
def withClasses (h : Hierarchy) (names : List String) : Hierarchy :=
  names.foldl (fun h name => ((Hierarchy.register name [] {}).run.run h).2) h

section

variable [Digest TypeData]

/-- With further base edges, as far as they are accepted. -/
def withEdges (h : Hierarchy) (edges : List (ClassId × Instance)) : Hierarchy :=
  edges.foldl (fun h e => ((Hierarchy.addBase e.1 e.2).run.run h).2) h

theorem Reachable.withClasses (hr : Reachable h) (names : List String) :
    Reachable (h.withClasses names) := by
  induction names generalizing h with
  | nil => exact hr
  | cons name names ih => exact ih (hr.next (.register name [] {}))

/-- Edges that are accepted one by one lead to a reachable hierarchy. -/
theorem Reachable.withEdges (hr : Reachable h) {edges : List (ClassId × Instance)}
    (hedges : ∀ e ∈ edges, h.types.IssuedList e.2.args) : Reachable (h.withEdges edges) := by
  induction edges generalizing h with
  | nil => exact hr
  | cons e edges ih =>
    rw [List.forall_mem_cons] at hedges
    have hchange := Change.addBase e.1 e.2 hedges.1
    refine ih (hr.next hchange) fun e' he' => ?_
    exact (hedges.2 e' he').of_le (hchange.extends_sound hr.sound).1.types

end

/-- Two edges from each of sixteen classes to the one before, an edge from a further class to
`tuple[Never]`, and from the last class one edge to the sixteenth and one to the further
class. -/
def towerEdges : List (ClassId × Instance) :=
  ((List.range 16).flatMap fun n => List.replicate 2 (⟨n + 4⟩, .bare ⟨n + 3⟩)) ++
    [(⟨20⟩, ⟨.tuple, ⟨1⟩⟩), (⟨21⟩, .bare ⟨19⟩), (⟨21⟩, .bare ⟨20⟩)]

/-- The hierarchy with these edges. -/
def tower : Hierarchy :=
  let types := ((internTypes [.never]).run {}).2
  (({ types } : Hierarchy).withClasses (List.replicate 19 "Level")).withEdges towerEdges

/-- The tower can be built. -/
theorem reachable_tower : Reachable tower := by
  unfold tower
  refine .withEdges (.withClasses (.next .initial (.intern _ (.types [.never] (by simp)))) _) ?_
  intro e he
  have hposition : e.2.args.position ≤ 1 := by
    revert e
    decide +kernel
  refine Nat.le_trans hposition ?_
  decide +kernel

/-- The classes of the ladder. -/
theorem parents_tower :
    ∀ n < 16, tower.classes.view.parents ⟨n + 1 + 3⟩ = [⟨n + 3⟩, ⟨n + 3⟩] := by
  decide +kernel

theorem edges_top : tower.classes.view.edges ⟨21⟩ = [⟨.bare ⟨19⟩, 0⟩, ⟨.bare ⟨20⟩, 1⟩] := by
  decide +kernel

/-- Each class of the ladder doubles the attempts. -/
theorem attempts_tower {n length : Nat} (hn : n ≤ 16) (hlength : n ≤ length) :
    2 ^ (n + 1) ≤ tower.classes.view.attempts .tuple length ⟨n + 3⟩ + 2 := by
  induction n generalizing length with
  | zero => exact Nat.le_add_left 2 _
  | succ n ih =>
    cases length with
    | zero => exact absurd hlength (Nat.not_succ_le_zero n)
    | succ length =>
      have hne : (⟨n + 3⟩ : ClassId) ≠ .tuple := by
        rintro ⟨⟩
      have hbelow := ih (Nat.le_of_succ_le hn) (Nat.le_of_succ_le_succ hlength)
      rw [ClassView.attempts_succ, parents_tower n hn]
      simp only [List.map_cons, List.map_nil, List.sum_cons, List.sum_nil, if_neg hne]
      rw [Nat.pow_succ]
      omega

/-- The ladder does not lead to `tuple`, but it takes all the steps. -/
theorem paths_tower (length : Nat) (hlength : 16 ≤ length) :
    tower.classes.view.paths (some (length + 1)) ⟨21⟩ .tuple = [] := by
  show ClassView.boundedPaths _ _ _ _ = []
  rw [ClassView.boundedPaths_eq reachable_tower.acyclic_view, List.map_eq_nil_iff,
    List.filter_eq_nil_iff]
  intro p hp
  have hedges : tower.classes.view.edges ⟨21⟩ = [⟨.bare ⟨19⟩, 0⟩] ++ ⟨.bare ⟨20⟩, 1⟩ :: [] :=
    edges_top
  obtain ⟨e, he, hp⟩ := ClassView.mem_edgePathsFrom_succ.mp hp
  rw [edges_top] at he
  -- neither edge leads to `tuple` at once
  have hne : e.target ≠ .tuple := by
    rcases List.mem_pair.mp he with rfl | rfl <;> decide
  obtain ⟨htarget, -⟩ | ⟨-, tail, htail, rfl⟩ := hp
  · exact absurd htarget hne
  rcases List.mem_pair.mp he with rfl | rfl
  · -- no path goes up the ladder
    have hancestor : tower.classes.Ancestor ⟨19⟩ .tuple :=
      (ClassView.edgePath_of_mem htail).ancestor
    exact absurd (Registry.derives_iff.mpr hancestor) (by decide +kernel)
  · -- the other edge comes after all attempts on the ladder
    have hladder := attempts_tower (n := 16) (Nat.le_refl 16) hlength
    have hfirst := ClassView.attemptsAlong_concat .tuple
      (tower.classes.view.attempts .tuple length) [] ⟨.bare ⟨19⟩, 0⟩
    rw [List.nil_append, if_neg (by decide)] at hfirst
    rw [ClassView.attemptsTo_cons hedges (ClassView.edgePath_of_mem htail).ne_nil, hfirst,
      decide_eq_true_eq]
    change 2 ^ 17 ≤ tower.classes.view.attempts .tuple length ⟨19⟩ + 2 at hladder
    change ¬ _ + (1 + tower.classes.view.attempts .tuple length ⟨19⟩) + 1 + _ ≤ 100000
    omega

/-- A search for paths of two edges finds one, and a search with the default limit does not, so
that what was answered with an argument is answered with an error. -/
theorem tower_loses_path :
    Reachable tower ∧
    tower.classes.view.paths (some 2) ⟨21⟩ .tuple = [[⟨20⟩, .tuple]] ∧
    tower.classes.view.paths (some Limits.derivation) ⟨21⟩ .tuple = [] ∧
    ((((tower.mapperUpTo (some 2)).supertypes (.bare ⟨21⟩) .tuple).run tower.types).1.map
      fun i => tower.types.args i) = [[.never]] ∧
    (tower.mapperUpTo (some Limits.derivation)).supertypes (.bare ⟨21⟩) .tuple =
      (do return [← (tower.mapperUpTo (some Limits.derivation)).anyInstance .tuple .fromError]) :=
  ⟨reachable_tower, by decide +kernel, paths_tower 255 (by decide), by decide +kernel,
    Mapper.supertypes_of_no_paths (paths_tower 255 (by decide))⟩

end Hierarchy

end Supertypes
