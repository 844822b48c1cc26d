import Mathlib.Algebra.GroupWithZero.Nat
import Supertypes.Proofs.EdgePaths
import Supertypes.Proofs.GoingUp

/-!
# Derivation paths within a limit on steps

A search for paths of bounded length counts its attempts to enter a class, those that the bound
on the length refuses too, and after `Limits.steps` attempts it enters no further class. What it
finds along one base edge depends on what it has attempted along the edges before.

- `ClassView.attempts`: how many attempts a search makes that nothing but the length stops.
  `ClassView.attemptsTo`: how many of them it takes to enter the last class before the target
  along an edge path.
- `ClassView.boundedPaths_eq`: without cycles the search lists the edge paths for which that many
  attempts are within the limit, in their order.
- `ClassView.spentGuard_iterations_le_iff`: the guard tells whether some attempt was beyond it.
-/

namespace Supertypes

open Relation

/-! ## Attempts that have been counted -/

namespace Guard

variable {κ : Type} {g : Guard κ} {made : Nat}

/-- The guard has counted the attempts that a walk without a limit on steps would have made, as
long as they are within its limit. Beyond it fewer are made, but the guard remembers that it is
passed. -/
def Counted (g : Guard κ) (made : Nat) : Prop :=
  g.iterations = made ∧ made ≤ g.maxIterations ∨
    g.maxIterations < g.iterations ∧ g.maxIterations < made

theorem Counted.iterations_eq (h : g.Counted made) (hle : made ≤ g.maxIterations) :
    g.iterations = made := by
  unfold Counted at h
  omega

theorem Counted.add_of_lt (h : g.Counted made) (hlt : g.maxIterations < made) (more : Nat) :
    g.Counted (made + more) := by
  unfold Counted at h ⊢
  omega

theorem Counted.iterations_le_iff (h : g.Counted made) :
    g.iterations ≤ g.maxIterations ↔ made ≤ g.maxIterations := by
  unfold Counted at h
  omega

/-- The counter is large enough to tell when the limit is passed. -/
theorem Counted.count (h : g.Counted made) (hlimit : g.maxIterations < Limits.counter) :
    g.count.Counted (made + 1) := by
  unfold Counted Guard.count at *
  dsimp only
  omega

end Guard

namespace ClassView

variable {view : ClassView} {target c : ClassId}

/-! ## How many attempts there are -/

/-- The attempts that going through some edges comes to, with those made below each of them. No
class is entered that is the target. -/
def attemptsAlong (target : ClassId) (below : ClassId → Nat) (es : List BaseEdge) : Nat :=
  (es.map fun e => if e.target = target then 0 else 1 + below e.target).sum

/-- The attempts of a search from `c` for paths of at most `length` edges. -/
def attempts (view : ClassView) (target : ClassId) : Nat → ClassId → Nat
  | 0, _ => 0
  | length + 1, c => attemptsAlong target (view.attempts target length) (view.edges c)

/-- The attempts up to the one at the last class before the target along an edge path; none for a
single edge, which leads to the target. -/
def attemptsTo (view : ClassView) (target : ClassId) : Nat → ClassId → List BaseEdge → Nat
  | length + 1, c, e :: next :: p =>
    attemptsAlong target (view.attempts target length) ((view.edges c).take e.place) + 1 +
      view.attemptsTo target length e.target (next :: p)
  | _, _, _ => 0

/-- The paths that begin with an edge. -/
def edgePathsVia (view : ClassView) (target : ClassId) (length : Nat) (e : BaseEdge) :
    List (List BaseEdge) :=
  if e.target = target then [[e]] else (view.edgePathsFrom target length e.target).map (e :: ·)

/-- What a search finds along one base edge. -/
def guardedPathsVia (view : ClassView) (target : ClassId) (length : Nat) (base : Instance) :
    StateM (Guard ClassId) (List (List ClassId)) := do
  if base.head = target then return [[target]]
  match ← Guard.scope base.head (view.guardedPaths target length base.head) with
  | .ok tails => return tails.map (base.head :: ·)
  | .error _ => return []

theorem guardedPaths_succ_run (view : ClassView) (target : ClassId) (length : Nat) (c : ClassId)
    (g : Guard ClassId) :
    (view.guardedPaths target (length + 1) c).run g =
      ((((view.bases c).mapM (view.guardedPathsVia target length)).run g).1.flatten,
        (((view.bases c).mapM (view.guardedPathsVia target length)).run g).2) :=
  rfl

/-- The attempts along one edge more. -/
theorem attemptsAlong_concat (target : ClassId) (below : ClassId → Nat) (es : List BaseEdge)
    (e : BaseEdge) :
    attemptsAlong target below (es ++ [e]) =
      attemptsAlong target below es + if e.target = target then 0 else 1 + below e.target := by
  unfold attemptsAlong
  rw [List.map_append, List.sum_append]
  rfl

theorem attemptsAlong_le_append (target : ClassId) (below : ClassId → Nat)
    (es es' : List BaseEdge) :
    attemptsAlong target below es ≤ attemptsAlong target below (es ++ es') := by
  unfold attemptsAlong
  rw [List.map_append, List.sum_append]
  exact Nat.le_add_right _ _

/-- The attempts depend on where the edges of a class lead to. -/
theorem attempts_succ (view : ClassView) (target : ClassId) (length : Nat) (c : ClassId) :
    view.attempts target (length + 1) c =
      ((view.parents c).map fun d =>
        if d = target then 0 else 1 + view.attempts target length d).sum := by
  unfold parents
  rw [← map_base_edges, List.map_map, List.map_map]
  rfl

/-! ## What the search finds -/

/-- A guard in front of a class from which paths of at most `length` edges are searched for: it
has as many levels left, and all classes on its path lead to that class. -/
structure Ahead (view : ClassView) (g : Guard ClassId) (length : Nat) (c : ClassId) : Prop where
  levels : g.maxDepth + 1 = g.depth + length
  above : ∀ k ∈ g.path, ReflTransGen (Search.Step view.parents) k c
  counter : g.maxIterations < Limits.counter

/-- A search leaves the path of the guard as it has found it, and its attempts counted. -/
structure Counting (g g' : Guard ClassId) (made : Nat) : Prop where
  path : g'.path = g.path
  maxDepth : g'.maxDepth = g.maxDepth
  maxIterations : g'.maxIterations = g.maxIterations
  counted : g'.Counted made

variable {g g' : Guard ClassId} {length made start : Nat} {e : BaseEdge}

theorem Ahead.of_counting (h : view.Ahead g length c) (hcounting : Counting g g' made) :
    view.Ahead g' length c where
  levels := by
    unfold Guard.depth
    rw [hcounting.path, hcounting.maxDepth]
    exact h.levels
  above := by
    rw [hcounting.path]
    exact h.above
  counter := by
    rw [hcounting.maxIterations]
    exact h.counter

theorem Counting.trans {g'' : Guard ClassId} {more : Nat} (h : Counting g g' made)
    (h' : Counting g' g'' more) : Counting g g'' more where
  path := h'.path.trans h.path
  maxDepth := h'.maxDepth.trans h.maxDepth
  maxIterations := h'.maxIterations.trans h.maxIterations
  counted := h'.counted

/-- A class below the end of the guard's path is not on it. -/
theorem Ahead.not_mem_path (hview : view.Acyclic) (h : view.Ahead g length c)
    (he : e ∈ view.edges c) : e.target ∉ g.path := by
  intro hmem
  exact hview.irrefl c (.head' (mem_parents_iff.mpr ⟨e, he, rfl⟩) (h.above _ hmem))

/-- The search from `c` lists the edge paths whose attempts are within the limit. -/
def Finds (view : ClassView) (target : ClassId) (length : Nat) : Prop :=
  ∀ c g, view.Ahead g length c → g.iterations ≤ g.maxIterations →
    ((view.guardedPaths target length c).run g).1 =
      ((view.edgePathsFrom target length c).filter fun p =>
        g.iterations + view.attemptsTo target length c p ≤ g.maxIterations).map BaseEdge.classes ∧
    Counting g ((view.guardedPaths target length c).run g).2
      (g.iterations + view.attempts target length c)

/-- The places of edges are those in the list. -/
theorem take_place {pre es : List BaseEdge} (hsplit : view.edges c = pre ++ e :: es) :
    (view.edges c).take e.place = pre := by
  have hlt : pre.length < (view.edges c).length := by
    rw [hsplit, List.length_append, List.length_cons]
    omega
  have hplace : e.place = pre.length := by
    have hget : (view.edges c)[pre.length] = e := by simp [hsplit]
    rw [← hget]
    simp [edges]
  rw [hplace, hsplit, List.take_left]

/-- Going along one edge that does not lead to the target. -/
theorem guardedPathsVia_run (hne : e.target ≠ target) (g : Guard ClassId) :
    (view.guardedPathsVia target length e.base).run g =
      if (g.enter e.target).1 = .entered then
        let below := (view.guardedPaths target length e.target).run (g.enter e.target).2
        (below.1.map (e.target :: ·), below.2.leave)
      else ([], (g.enter e.target).2) := by
  unfold guardedPathsVia
  rw [if_neg (show ¬ e.base.head = target from hne), StateT.run_bind, Guard.run_scope]
  split
  · rw [if_pos (by assumption)]
    rfl
  · rw [if_neg (by assumption)]
    rfl

/-- The attempts for a path that goes on after its first edge are those before that edge, the one
at the edge, and those below it. -/
theorem attemptsTo_cons {pre es p : List BaseEdge} (hsplit : view.edges c = pre ++ e :: es)
    (hp : p ≠ []) :
    view.attemptsTo target (length + 1) c (e :: p) =
      attemptsAlong target (view.attempts target length) pre + 1 +
        view.attemptsTo target length e.target p := by
  cases p with
  | nil => exact absurd rfl hp
  | cons next p =>
    show attemptsAlong _ _ ((view.edges c).take e.place) + 1 + _ = _
    rw [take_place hsplit]

/-- The attempts for a path are among those of the search. -/
theorem attemptsTo_le_attempts {p : List BaseEdge} (hp : p ∈ view.edgePathsFrom target length c) :
    view.attemptsTo target length c p ≤ view.attempts target length c := by
  induction length generalizing c p with
  | zero => exact Nat.le_refl 0
  | succ length ih =>
    obtain ⟨e, he, ⟨-, rfl⟩ | ⟨hne, tail, htail, rfl⟩⟩ := mem_edgePathsFrom_succ.mp hp
    · exact Nat.zero_le _
    · obtain ⟨pre, es, hsplit⟩ := List.append_of_mem he
      have hbelow := ih htail
      have hrest : attemptsAlong target (view.attempts target length) (pre ++ [e]) ≤
          view.attempts target (length + 1) c := by
        show _ ≤ attemptsAlong _ _ (view.edges c)
        rw [hsplit, List.append_cons pre e es]
        exact attemptsAlong_le_append _ _ _ _
      rw [attemptsAlong_concat, if_neg hne] at hrest
      rw [attemptsTo_cons hsplit (edgePath_of_mem htail).ne_nil]
      omega

/-- Picking the paths that begin with an edge by their attempts. -/
theorem filter_via {pre es : List BaseEdge} (hsplit : view.edges c = pre ++ e :: es)
    (start limit : Nat) :
    (((view.edgePathsFrom target length e.target).map (e :: ·)).filter fun p =>
        start + view.attemptsTo target (length + 1) c p ≤ limit).map BaseEdge.classes =
      (((view.edgePathsFrom target length e.target).filter fun p =>
        start + attemptsAlong target (view.attempts target length) pre + 1 +
          view.attemptsTo target length e.target p ≤ limit).map BaseEdge.classes).map
            (e.target :: ·) := by
  rw [List.filter_map, List.map_map, List.map_map]
  refine congrArg _ (List.filter_congr fun p hp => ?_)
  show decide (start + view.attemptsTo target (length + 1) c (e :: p) ≤ limit) = _
  rw [attemptsTo_cons hsplit (edgePath_of_mem hp).ne_nil, ← Nat.add_assoc, ← Nat.add_assoc]

/-- An edge that is not entered, since there are no steps or levels left. -/
theorem Ahead.refused (h : view.Ahead g (length + 1) c) (hne : e.target ≠ target)
    (hcounted : g.Counted made) (hspent : g.maxIterations < made + 1 ∨ length = 0) :
    ((view.guardedPathsVia target length e.base).run g).1 = [] ∧
    Counting g ((view.guardedPathsVia target length e.base).run g).2
      (made + 1 + view.attempts target length e.target) := by
  have hcount : g.count.Counted (made + 1) := hcounted.count h.counter
  have hspent' : g.maxIterations < g.count.iterations ∨ g.maxDepth ≤ g.depth := by
    refine hspent.imp (fun hlt => ?_) fun hzero => ?_
    · exact Nat.not_le.mp fun hle => Nat.not_le.mpr hlt (hcount.iterations_le_iff.mp hle)
    · have hlevels := h.levels
      omega
  have hrefused : (g.enter e.target).1 ≠ .entered := by
    rw [Ne, Guard.entered_iff]
    rintro ⟨hsteps, hdepth, -⟩
    exact hspent'.elim (Nat.not_lt.mpr hsteps) (Nat.not_le.mpr hdepth)
  rw [guardedPathsVia_run hne, if_neg hrefused]
  refine ⟨rfl, (Guard.restored_of_refused hrefused).path, rfl, rfl, ?_⟩
  show g.count.Counted _
  rcases hspent with hspent | rfl
  · exact hcount.add_of_lt hspent _
  · exact hcount

/-- An edge that is entered. -/
theorem Finds.entered (hview : view.Acyclic) (hfinds : view.Finds target length)
    (h : view.Ahead g (length + 1) c) (he : e ∈ view.edges c) (hne : e.target ≠ target)
    (hcounted : g.Counted made) (hsteps : made + 1 ≤ g.maxIterations) (hlevel : length ≠ 0) :
    ((view.guardedPathsVia target length e.base).run g).1 =
      (((view.edgePathsFrom target length e.target).filter fun p =>
        made + 1 + view.attemptsTo target length e.target p ≤ g.maxIterations).map
          BaseEdge.classes).map (e.target :: ·) ∧
    Counting g ((view.guardedPathsVia target length e.base).run g).2
      (made + 1 + view.attempts target length e.target) := by
  -- one attempt is spent on entering, and the path below the class has room for it
  have hcount : g.count.iterations = made + 1 := (hcounted.count h.counter).iterations_eq hsteps
  have hdepth : g.depth < g.maxDepth := by
    have hlevels := h.levels
    omega
  have hentered : (g.enter e.target).1 = .entered :=
    Guard.entered_iff.mpr ⟨hcount ▸ hsteps, hdepth, h.not_mem_path hview he⟩
  have hpath := Guard.path_of_entered hentered
  -- below it all is as it was, one level further down
  have hahead : view.Ahead (g.enter e.target).2 length e.target := by
    refine ⟨?_, ?_, h.counter⟩
    · have hlevels := h.levels
      unfold Guard.depth at hlevels ⊢
      rw [hpath, List.length_cons]
      show g.maxDepth + 1 = _
      omega
    · have hstep : Search.Step view.parents c e.target := mem_parents_iff.mpr ⟨e, he, rfl⟩
      rw [hpath, List.forall_mem_cons]
      exact ⟨.refl, fun k hk => (h.above k hk).tail hstep⟩
  -- so the search below finds what it should, and gives the path back
  obtain ⟨hfound, hcounting⟩ := hfinds e.target _ hahead (hcount ▸ hsteps)
  rw [show (g.enter e.target).2.iterations = made + 1 from hcount] at hfound hcounting
  rw [guardedPathsVia_run hne, if_pos hentered]
  refine ⟨congrArg _ hfound, ?_, hcounting.maxDepth, hcounting.maxIterations, hcounting.counted⟩
  show List.tail _ = _
  rw [hcounting.path, hpath]
  rfl

/-- Along one edge the search lists the paths that begin with it and whose attempts, after those
made along the edges before, are within the limit. -/
theorem Finds.via (hview : view.Acyclic) (hfinds : view.Finds target length)
    (h : view.Ahead g (length + 1) c) (hstart : start ≤ g.maxIterations) {pre es : List BaseEdge}
    (hsplit : view.edges c = pre ++ e :: es)
    (hcounted : g.Counted (start + attemptsAlong target (view.attempts target length) pre)) :
    ((view.guardedPathsVia target length e.base).run g).1 =
      ((view.edgePathsVia target length e).filter fun p =>
        start + view.attemptsTo target (length + 1) c p ≤ g.maxIterations).map BaseEdge.classes ∧
    Counting g ((view.guardedPathsVia target length e.base).run g).2
      (start + attemptsAlong target (view.attempts target length) (pre ++ [e])) := by
  have he : e ∈ view.edges c := by
    rw [hsplit]
    exact List.mem_append_right pre List.mem_cons_self
  rw [attemptsAlong_concat]
  unfold edgePathsVia
  by_cases htarget : e.target = target
  · -- the edge is a path, and takes no attempt
    have hrun : (view.guardedPathsVia target length e.base).run g = ([[target]], g) := by
      unfold guardedPathsVia
      rw [if_pos (show e.base.head = target from htarget)]
      rfl
    rw [hrun, if_pos htarget, if_pos htarget,
      List.filter_cons_of_pos (by exact decide_eq_true hstart)]
    exact ⟨by simp [BaseEdge.classes, htarget], rfl, rfl, rfl, hcounted⟩
  · rw [if_neg htarget, if_neg htarget, filter_via hsplit, ← Nat.add_assoc, ← Nat.add_assoc]
    -- only the number of attempts made before matters
    generalize start + attemptsAlong target (view.attempts target length) pre = made at hcounted ⊢
    -- too few attempts or no level left: the guard refuses, and no path fits either
    by_cases hspent : g.maxIterations < made + 1 ∨ length = 0
    · obtain ⟨hfound, hcounting⟩ := h.refused htarget hcounted hspent
      refine ⟨?_, hcounting⟩
      rw [hfound]
      rcases hspent with hspent | rfl
      · rw [List.filter_eq_nil_iff.mpr]
        · rfl
        · intro p _
          simp only [decide_eq_true_eq]
          omega
      · rfl
    · obtain ⟨hsteps, hlevel⟩ := not_or.mp hspent
      exact hfinds.entered hview h he htarget hcounted (Nat.not_lt.mp hsteps) hlevel

/-- Along the edges from some place on. -/
theorem Finds.along (hview : view.Acyclic) (hfinds : view.Finds target length) {es : List BaseEdge}
    {pre : List BaseEdge} (hsplit : view.edges c = pre ++ es) (h : view.Ahead g (length + 1) c)
    (hstart : start ≤ g.maxIterations)
    (hcounted : g.Counted (start + attemptsAlong target (view.attempts target length) pre)) :
    (((es.map BaseEdge.base).mapM (view.guardedPathsVia target length)).run g).1.flatten =
      ((es.flatMap (view.edgePathsVia target length)).filter fun p =>
        start + view.attemptsTo target (length + 1) c p ≤ g.maxIterations).map BaseEdge.classes ∧
    Counting g (((es.map BaseEdge.base).mapM (view.guardedPathsVia target length)).run g).2
      (start + attemptsAlong target (view.attempts target length) (view.edges c)) := by
  induction es generalizing pre g with
  | nil =>
    rw [List.append_nil] at hsplit
    rw [hsplit]
    exact ⟨rfl, rfl, rfl, rfl, hcounted⟩
  | cons e es ih =>
    obtain ⟨hfound, hcounting⟩ := hfinds.via hview h hstart hsplit hcounted
    have hsplit' : view.edges c = (pre ++ [e]) ++ es := by
      rw [hsplit, List.append_assoc]
      rfl
    obtain ⟨hrest, hcountings⟩ := ih hsplit' (h.of_counting hcounting)
      (hcounting.maxIterations ▸ hstart) hcounting.counted
    rw [hcounting.maxIterations] at hrest
    rw [List.map_cons, List.mapM_cons]
    refine ⟨?_, hcounting.trans hcountings⟩
    rw [List.flatMap_cons, List.filter_append, List.map_append, ← hfound, ← hrest]
    rfl

/-- The search goes one level further. -/
theorem finds (hview : view.Acyclic) (target : ClassId) (length : Nat) :
    view.Finds target length := by
  induction length with
  | zero => exact fun c g _ hsteps => ⟨rfl, rfl, rfl, rfl, .inl ⟨rfl, hsteps⟩⟩
  | succ length ih =>
    intro c g h hsteps
    have hsplit : view.edges c = [] ++ view.edges c := rfl
    rw [guardedPaths_succ_run, ← map_base_edges]
    exact ih.along hview hsplit h hsteps (.inl ⟨rfl, hsteps⟩)

/-! ## The search from the start -/

/-- The guard that a search for paths of at most `limit` edges leaves behind. -/
def spentGuard (view : ClassView) (limit : Nat) (c target : ClassId) : Guard ClassId :=
  ((view.guardedPaths target limit c).run (pathGuard limit)).2

/-- What the search does from the start. -/
theorem finds_from_start (hview : view.Acyclic) (limit : Nat) (c target : ClassId) :
    view.boundedPaths limit c target =
      ((view.edgePathsFrom target limit c).filter fun p =>
        view.attemptsTo target limit c p ≤ Limits.steps).map BaseEdge.classes ∧
    Counting (pathGuard limit) (view.spentGuard limit c target) (view.attempts target limit c) := by
  have hsteps : (pathGuard limit).iterations ≤ (pathGuard limit).maxIterations := Nat.zero_le _
  cases limit with
  | zero => exact ⟨rfl, rfl, rfl, rfl, .inl ⟨rfl, hsteps⟩⟩
  | succ limit =>
    have hahead : view.Ahead (pathGuard (limit + 1)) (limit + 1) c :=
      ⟨(Nat.zero_add _).symm, fun k hk => absurd hk List.not_mem_nil,
        show Limits.steps < Limits.counter by decide⟩
    have hfinds := view.finds hview target (limit + 1) c _ hahead hsteps
    rw [show (pathGuard (limit + 1)).iterations = 0 from rfl] at hfinds
    simp only [Nat.zero_add] at hfinds
    exact hfinds

/-- Without cycles a search lists the edge paths of at most `limit` edges whose attempts are
within the limit on steps, in their order. -/
theorem boundedPaths_eq (hview : view.Acyclic) (limit : Nat) (c target : ClassId) :
    view.boundedPaths limit c target =
      ((view.edgePathsFrom target limit c).filter fun p =>
        view.attemptsTo target limit c p ≤ Limits.steps).map BaseEdge.classes :=
  (finds_from_start hview limit c target).1

/-- The guard tells whether the search has been cut short. -/
theorem spentGuard_iterations_le_iff (hview : view.Acyclic) (limit : Nat) (c target : ClassId) :
    (view.spentGuard limit c target).iterations ≤ Limits.steps ↔
      view.attempts target limit c ≤ Limits.steps := by
  have hcounting := (finds_from_start hview limit c target).2
  have hmax : (view.spentGuard limit c target).maxIterations = Limits.steps :=
    hcounting.maxIterations
  have hiff := hcounting.counted.iterations_le_iff
  rwa [hmax] at hiff

end ClassView

end Supertypes
