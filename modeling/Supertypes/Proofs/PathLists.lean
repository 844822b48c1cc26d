import Supertypes.Proofs.GuardedSearch
import Supertypes.Proofs.Results

/-!
# The lists of paths

- `ClassView.edgePathsFrom_eq_filter`: without cycles the edge paths up to a length are those
  among all that are short enough, in their order.
- `ClassView.Acyclic.wellFounded_parents` and `ClassView.allPaths_eq_flatMap`: without cycles the
  recursion from a class to its parents comes to an end by itself, so that the number of classes
  with base edges, which bounds it, is never felt.
- `Hierarchy.Reachable.unlimited_paths`: in a reachable hierarchy the paths without a limit are
  the classes of all edge paths, and there are paths to the ancestors of a class only.
- `Hierarchy.Reachable.paths_within_limit`: the paths within a limit are those that are short
  enough, unless the search runs out of steps.
-/

namespace Supertypes

open Relation

namespace ClassView

variable {view : ClassView} {target c : ClassId} {n m : Nat}

/-! ## Lengths -/

/-- Up to a smaller length there are the paths that are short enough. -/
theorem edgePathsFrom_filter (view : ClassView) (target c : ClassId) (h : n ≤ m) :
    (view.edgePathsFrom target m c).filter (·.length ≤ n) = view.edgePathsFrom target n c := by
  induction n generalizing m c with
  | zero =>
    refine List.filter_eq_nil_iff.mpr fun p hp => ?_
    simpa using (edgePath_of_mem hp).ne_nil
  | succ n ih =>
    cases m with
    | zero => exact absurd h (Nat.not_succ_le_zero n)
    | succ m =>
      unfold edgePathsFrom
      rw [List.filter_flatMap]
      refine List.flatMap_congr fun e _ => ?_
      split
      · exact List.filter_cons_of_pos (by simp)
      · -- what follows the edge is one edge shorter
        rw [← ih e.target (Nat.le_of_succ_le_succ h), List.filter_map]
        refine congrArg _ (List.filter_congr fun p _ => ?_)
        simp

/-- Without cycles no path is longer than there are classes with base edges. -/
theorem edgePathsFrom_eq_edgePaths (hview : view.Acyclic) (target c : ClassId)
    (h : view.size ≤ n) : view.edgePathsFrom target n c = view.edgePaths c target := by
  unfold edgePaths
  rw [← view.edgePathsFrom_filter target c h, List.filter_eq_self.mpr]
  intro p hp
  exact decide_eq_true ((edgePath_of_mem hp).length_le hview)

/-- Without cycles the paths up to a length are those among all that are short enough. -/
theorem edgePathsFrom_eq_filter (hview : view.Acyclic) (n : Nat) (c target : ClassId) :
    view.edgePathsFrom target n c = (view.edgePaths c target).filter (·.length ≤ n) := by
  rcases Nat.le_total n view.size with h | h
  · exact (view.edgePathsFrom_filter target c h).symm
  · rw [edgePathsFrom_eq_edgePaths hview target c h, List.filter_eq_self.mpr]
    intro p hp
    have hlength := (edgePath_of_mem hp).length_le hview
    exact decide_eq_true (Nat.le_trans hlength h)

/-! ## The recursion without a limit -/

/-- A class from which no path goes on for long is the start of no endless way up. -/
theorem acc_parents (n : Nat) (c : ClassId)
    (h : ∀ target p, view.EdgePath target c p → p.length ≤ n) :
    Acc (fun d c => d ∈ view.parents c) c := by
  induction n generalizing c with
  | zero =>
    refine ⟨c, fun d hd => ?_⟩
    obtain ⟨e, he, htarget⟩ := mem_parents_iff.mp hd
    exact absurd (h d [e] (.last he htarget)) (Nat.not_succ_le_zero 0)
  | succ n ih =>
    refine ⟨c, fun d hd => ih d fun target p hp => ?_⟩
    obtain ⟨e, he, rfl⟩ := mem_parents_iff.mp hd
    exact Nat.le_of_succ_le_succ (h target (e :: p) (.step he hp))

/-- Without cycles the way from class to parent ends wherever it starts. -/
theorem Acyclic.wellFounded_parents (hview : view.Acyclic) :
    WellFounded fun d c => d ∈ view.parents c :=
  ⟨fun c => acc_parents view.size c fun _ _ hp => hp.length_le hview⟩

/-- Without cycles the paths from a class come from those of its parents, and nothing else bounds
them. -/
theorem allPaths_eq_flatMap (hview : view.Acyclic) (c target : ClassId) :
    view.allPaths c target = (view.bases c).flatMap fun base =>
      if base.head = target then [[target]]
      else (view.allPaths base.head target).map (base.head :: ·) := by
  -- with one level to spare the paths are the same
  have hspare : view.allPaths c target = view.pathsFrom target (view.size + 1) c := by
    rw [allPaths_eq, pathsFrom_eq, edgePathsFrom_eq_edgePaths hview target c (Nat.le_succ _)]
  rw [hspare]
  rfl

/-- Without cycles there are paths to the ancestors of a class only. -/
theorem allPaths_ne_nil_iff (hview : view.Acyclic) :
    view.allPaths c target ≠ [] ↔ TransGen (Search.Step view.parents) c target := by
  rw [← exists_edgePath_iff, allPaths_eq, Ne, List.map_eq_nil_iff]
  constructor
  · intro hne
    obtain ⟨p, hp⟩ := List.exists_mem_of_ne_nil _ hne
    exact ⟨p, (mem_edgePaths_iff hview).mp hp⟩
  · rintro ⟨p, hp⟩
    exact List.ne_nil_of_mem ((mem_edgePaths_iff hview).mpr hp)

/-! ## Within a limit -/

/-- Without cycles a search that no attempt is refused in for the steps finds all the paths that
are short enough. -/
theorem boundedPaths_eq_filter (hview : view.Acyclic) {limit : Nat} {c target : ClassId}
    (hsteps : view.attempts target limit c ≤ Limits.steps) :
    view.boundedPaths limit c target =
      (view.allPaths c target).filter (·.length ≤ limit) := by
  have hall : (view.edgePathsFrom target limit c).filter
      (fun p => view.attemptsTo target limit c p ≤ Limits.steps) =
        view.edgePathsFrom target limit c :=
    List.filter_eq_self.mpr fun p hp =>
      decide_eq_true (Nat.le_trans (attemptsTo_le_attempts hp) hsteps)
  have hlength : ((·.length ≤ limit) : List ClassId → Bool) ∘ BaseEdge.classes =
      fun p => decide (p.length ≤ limit) := by
    funext p
    simp [BaseEdge.classes]
  rw [boundedPaths_eq hview, hall, edgePathsFrom_eq_filter hview, allPaths_eq, List.filter_map,
    hlength]

end ClassView

namespace Hierarchy

variable {h : Hierarchy} {c target : ClassId} {limit : Nat} {answers : List Guard.Entry}

/-- In a reachable hierarchy the search for paths without a limit goes from class to parent only
finitely often. It lists the classes of all edge paths, one entry for each, in the order of the
places that their edges are declared at, and there are entries just for the classes that it
derives from. -/
theorem Reachable.unlimited_paths [Digest TypeData] (hr : Reachable h) (target : ClassId) :
    let view := h.classes.view
    WellFounded (fun d c => d ∈ view.parents c) ∧ ∀ c,
      (view.paths none c target = (view.bases c).flatMap fun base =>
        if base.head = target then [[target]]
        else (view.paths none base.head target).map (base.head :: ·)) ∧
      (∃ ps : List (List BaseEdge), (∀ p, p ∈ ps ↔ view.EdgePath target c p) ∧
        ps.Pairwise (fun p q => BaseEdge.places p < BaseEdge.places q) ∧
        view.paths none c target = ps.map BaseEdge.classes) ∧
      (view.paths none c target ≠ [] ↔ h.classes.derives c target = true) := by
  intro view
  have hview : view.Acyclic := hr.sound.acyclic_view
  refine ⟨hview.wellFounded_parents,
    fun c => ⟨ClassView.allPaths_eq_flatMap hview c target, ?_, ?_⟩⟩
  · exact ⟨view.edgePaths c target, fun p => ClassView.mem_edgePaths_iff hview,
      view.edgePaths_ascend c target, view.allPaths_eq c target⟩
  · exact (ClassView.allPaths_ne_nil_iff hview).trans Registry.derives_iff.symm

theorem twofoldBox_unlimited_paths :
    twofoldBox.classes.view.paths none ⟨3⟩ .tuple = [[.tuple], [.tuple]] ∧
      (twofoldBox.classes.view.paths none ⟨3⟩ .tuple ≠ [] ↔
        twofoldBox.classes.derives ⟨3⟩ .tuple = true) :=
  ⟨by decide +kernel, ((reachable_twofoldBox.unlimited_paths .tuple).2 ⟨3⟩).2.2⟩

/-- In a reachable hierarchy the search for paths within a limit finds just those among all paths
that have no more edges, in their order, unless some attempt to enter a class is refused for the
steps. -/
theorem Reachable.paths_within_limit [Digest TypeData] (hr : Reachable h)
    (hsearch : h.classes.view.LimitedSearch c target limit answers
      (h.classes.view.paths (some limit) c target))
    (hsteps : .iterationsExceeded ∉ answers) :
    h.classes.view.paths (some limit) c target =
      (h.classes.view.paths none c target).filter (·.length ≤ limit) := by
  have hview : h.classes.view.Acyclic := hr.sound.acyclic_view
  have hattempts : h.classes.view.attempts target limit c ≤ Limits.steps :=
    (ClassView.spentGuard_iterations_le_iff hview limit c target).mp (hsearch.iterations_le hsteps)
  exact ClassView.boundedPaths_eq_filter hview hattempts

/-- The box, which is an `object` by way of `tuple`, with an edge that leads there at once. -/
def shortcutBox : Hierarchy :=
  ((Hierarchy.addBase ⟨3⟩ (.bare .object)).run.run box).2

theorem reachable_shortcutBox : Reachable shortcutBox :=
  .next reachable_box (.addBase ⟨3⟩ (.bare .object) (Nat.zero_le _))

/-- With room for one edge the way by `tuple` is refused and the other one found. -/
theorem shortcutBox_paths_within_limit :
    let view := shortcutBox.classes.view
    view.paths none ⟨3⟩ .object = [[.tuple, .object], [.object]] ∧
      view.paths (some 1) ⟨3⟩ .object = [[.object]] ∧
      view.paths (some 1) ⟨3⟩ .object = (view.paths none ⟨3⟩ .object).filter (·.length ≤ 1) := by
  intro view
  have hall : view.paths none ⟨3⟩ .object = [[.tuple, .object], [.object]] := by decide +kernel
  have hshort : view.paths (some 1) ⟨3⟩ .object = [[.object]] := by decide +kernel
  have hbases : view.bases ⟨3⟩ = [⟨.tuple, ⟨1⟩⟩, .bare .object] := by decide +kernel
  have hsearch : view.Searches .object (view.bases ⟨3⟩) (ClassView.pathGuard 1) [.depthExceeded]
      (view.paths (some 1) ⟨3⟩ .object) ((ClassView.pathGuard 1).enter .tuple).2 := by
    rw [hbases, hshort]
    exact .refuse (by decide) (by decide +kernel) (.arrive rfl (.done _))
  exact ⟨hall, hshort, reachable_shortcutBox.paths_within_limit (.some hsearch) (by decide)⟩

end Hierarchy

end Supertypes
