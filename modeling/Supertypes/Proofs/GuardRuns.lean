import Supertypes.Proofs.GuardedSearch
import Supertypes.Proofs.RecursionMarks

/-!
# Runs of a guard

- `Guard.Runs`: a guard is used, in any order, by attempts to enter a key, by leaving the key
  entered last, and by scopes. `Guard.Tally` is what it knows of the attempts, and
  `Guard.Runs.tally` says that every run keeps this.
- `Guard.Balanced`: a walk uses the guard by such a run and gives its path back as it was. Walks
  that are put together from such walks are such walks.
- `ClassView.Searches.runs`: the search for paths is such a run, whatever the base edges are.
- `Registry.balanced_shapeReaches`: the search through tuple shapes is such a walk, whatever the
  shapes are. `Registry.isRecursiveShape_eq` says that only the guard ends it.
- `Guard.runs_disciplined` puts this together.
-/

namespace Supertypes

namespace Guard

variable {κ α β : Type} [DecidableEq κ] {g g' g₁ : Guard κ} {answers before more : List Entry}
  {k : κ} {p : Profile} {body : StateM (Guard κ) α}

/-! ## Runs -/

/-- A run leads from one guard to another, and lists the answers to its attempts to enter a key,
those inside of scopes included. A key is left only when it was entered last, also where a scope
leaves it at its end. -/
inductive Runs : Guard κ → List Entry → Guard κ → Prop
  | start (g : Guard κ) : Runs g [] g
  | enter {g g' : Guard κ} {answers : List Entry} (h : Runs g answers g') (k : κ) :
    Runs g (answers ++ [(g'.enter k).1]) (g'.enter k).2
  | leave {g g' : Guard κ} {answers : List Entry} (h : Runs g answers g') {k : κ}
    (hk : g'.CanLeave k) : Runs g answers g'.leave
  | scope {g g' : Guard κ} {answers below : List Entry} {α : Type} {body : StateM (Guard κ) α}
    (h : Runs g answers g') (k : κ) (hentered : (g'.enter k).1 = .entered)
    (hbody : Runs (g'.enter k).2 below (body.run (g'.enter k).2).2)
    (hk : (body.run (g'.enter k).2).2.CanLeave k) :
    Runs g (answers ++ .entered :: below) ((Guard.scope k body).run g').2
  | refusedScope {g g' : Guard κ} {answers : List Entry} {α : Type} (h : Runs g answers g') (k : κ)
    (body : StateM (Guard κ) α) (hrefused : (g'.enter k).1 ≠ .entered) :
    Runs g (answers ++ [(g'.enter k).1]) ((Guard.scope k body).run g').2

theorem scope_of_entered (hentered : (g.enter k).1 = .entered) :
    ((Guard.scope k body).run g).2 = (body.run (g.enter k).2).2.leave := by
  rw [run_scope, if_pos hentered]

theorem scope_of_refused (hrefused : (g.enter k).1 ≠ .entered) :
    ((Guard.scope k body).run g).2 = (g.enter k).2 := by
  rw [run_scope, if_neg hrefused]

/-- A run that goes on where another has ended. -/
theorem Runs.trans (h : Runs g answers g₁) (h' : Runs g₁ more g') :
    Runs g (answers ++ more) g' := by
  induction h' with
  | start => rwa [List.append_nil]
  | enter _ k ih =>
    rw [← List.append_assoc]
    exact (ih h).enter k
  | leave _ hk ih => exact (ih h).leave hk
  | scope _ k hentered hbody hk ih _ =>
    rw [← List.append_assoc]
    exact (ih h).scope k hentered hbody hk
  | refusedScope _ k body hrefused ih =>
    rw [← List.append_assoc]
    exact (ih h).refusedScope k body hrefused

/-! ## What a guard knows of its attempts -/

/-- The guard after some attempts, which started with the limits of `p`. -/
structure Tally (p : Profile) (answers : List Entry) (g : Guard κ) : Prop where
  maxDepth : g.maxDepth = p.maxDepth
  maxIterations : g.maxIterations = p.maxIterations
  nodup : g.path.Nodup
  depth_le : g.depth ≤ p.maxDepth
  /-- All attempts are counted, as long as the counter can count them. -/
  iterations : g.iterations = min answers.length Limits.counter
  /-- As long as it can, no more of them succeed than the limit on steps permits. -/
  entered_le : (answers.take Limits.counter).count .entered ≤ p.maxIterations
  exceeded : g.exceeded = answers.any Entry.isExceeded

omit [DecidableEq κ] in
theorem Tally.start (p : Profile) : Tally p [] (ofProfile p : Guard κ) where
  maxDepth := rfl
  maxIterations := rfl
  nodup := List.nodup_nil
  depth_le := Nat.zero_le _
  iterations := rfl
  entered_le := by simp
  exceeded := rfl

/-- An attempt succeeds at most as often as there are steps. -/
theorem Tally.entered_concat_le (h : Tally p answers g) (k : κ) :
    ((answers ++ [(g.enter k).1]).take Limits.counter).count .entered ≤ p.maxIterations := by
  by_cases hroom : answers.length < Limits.counter
  · have hlength : (answers ++ [(g.enter k).1]).length ≤ Limits.counter := by
      rw [List.length_append, List.length_singleton]
      exact hroom
    have hold := h.entered_le
    rw [List.take_of_length_le (Nat.le_of_lt hroom)] at hold
    rw [List.take_of_length_le hlength, List.count_append, List.count_singleton]
    by_cases hentered : (g.enter k).1 = .entered
    · -- the attempt is among those that there are steps for, and so are all before it
      have hsteps : g.count.iterations ≤ p.maxIterations :=
        h.maxIterations ▸ (entered_iff.mp hentered).1
      have hcount : g.count.iterations = min (min answers.length Limits.counter + 1)
          Limits.counter := by rw [← h.iterations]; rfl
      have hcounted := List.count_le_length (a := Entry.entered) (l := answers)
      rw [hentered]
      simp only [beq_self_eq_true, if_true]
      omega
    · rw [if_neg (by simpa using hentered)]
      exact hold
  · rw [List.take_append_of_le_length (Nat.not_lt.mp hroom)]
    exact h.entered_le

/-- What is known of the attempts is known after one more. -/
theorem Tally.enter (h : Tally p answers g) (k : κ) :
    Tally p (answers ++ [(g.enter k).1]) (g.enter k).2 := by
  have hpath : (g.enter k).2.path.Nodup ∧ (g.enter k).2.depth ≤ p.maxDepth := by
    unfold depth
    by_cases hentered : (g.enter k).1 = .entered
    · obtain ⟨-, hdepth, hnew⟩ := entered_iff.mp hentered
      rw [path_of_entered hentered]
      exact ⟨List.nodup_cons.mpr ⟨hnew, h.nodup⟩, h.maxDepth ▸ hdepth⟩
    · rw [(restored_of_refused hentered).path]
      exact ⟨h.nodup, h.depth_le⟩
  refine ⟨h.maxDepth, h.maxIterations, hpath.1, hpath.2, ?_, h.entered_concat_le k, ?_⟩
  · show min (g.iterations + 1) Limits.counter = _
    rw [h.iterations, List.length_append, List.length_singleton]
    omega
  · show (g.exceeded || (g.enter k).1.isExceeded) = _
    rw [h.exceeded, List.any_append, List.any_cons, List.any_nil, Bool.or_false]

omit [DecidableEq κ] in
theorem Tally.leave (h : Tally p answers g) : Tally p answers g.leave where
  maxDepth := h.maxDepth
  maxIterations := h.maxIterations
  nodup := h.nodup.sublist (List.tail_sublist _)
  depth_le := (List.tail_sublist _).length_le.trans h.depth_le
  iterations := h.iterations
  entered_le := h.entered_le
  exceeded := h.exceeded

/-- Every run keeps the tally. -/
theorem Runs.tally (h : Runs g answers g') (ht : Tally p before g) :
    Tally p (before ++ answers) g' := by
  induction h generalizing before with
  | start => rwa [List.append_nil]
  | enter _ k ih =>
    rw [← List.append_assoc]
    exact (ih ht).enter k
  | leave _ _ ih => exact (ih ht).leave
  | scope _ k hentered _ _ ih ihbody =>
    have hdeeper := (ih ht).enter k
    rw [hentered] at hdeeper
    rw [scope_of_entered hentered, List.append_cons, ← List.append_assoc, ← List.append_assoc]
    exact (ihbody hdeeper).leave
  | refusedScope _ k body hrefused ih =>
    rw [scope_of_refused hrefused, ← List.append_assoc]
    exact (ih ht).enter k

/-! ## Walks that give the path back -/

/-- The walk is a run, whatever the guard is at its start, and gives the guard back as it was but
for the attempts that have been counted. -/
def Balanced (walk : StateM (Guard κ) α) : Prop :=
  ∀ g, ∃ answers, Runs g answers (walk.run g).2 ∧ Restored g (walk.run g).2

namespace Balanced

variable {walk : StateM (Guard κ) α} {next : α → StateM (Guard κ) β}

theorem pure (a : α) : Balanced (Pure.pure a : StateM (Guard κ) α) :=
  fun g => ⟨[], .start g, .refl g⟩

theorem bind (hwalk : Balanced walk) (hnext : ∀ a, Balanced (next a)) :
    Balanced (walk >>= next) := by
  intro g
  obtain ⟨answers, hrun, hrestored⟩ := hwalk g
  obtain ⟨more, hmore, hrestored'⟩ := hnext (walk.run g).1 (walk.run g).2
  exact ⟨answers ++ more, hrun.trans hmore, hrestored.trans hrestored'⟩

/-- One key further down. -/
theorem scope (hwalk : Balanced walk) (k : κ) : Balanced (Guard.scope k walk) := by
  intro g
  by_cases hentered : (g.enter k).1 = .entered
  · obtain ⟨below, hrun, hrestored⟩ := hwalk (g.enter k).2
    have hk : (walk.run (g.enter k).2).2.CanLeave k := by
      unfold CanLeave
      rw [hrestored.path, path_of_entered hentered]
      rfl
    refine ⟨_, (Runs.start g).scope k hentered hrun hk, ?_⟩
    rw [scope_of_entered hentered]
    exact restored_of_entered hentered hrestored
  · refine ⟨_, (Runs.start g).refusedScope k walk hentered, ?_⟩
    rw [scope_of_refused hentered]
    exact restored_of_refused hentered

end Balanced

end Guard

/-! ## Searches -/

namespace ClassView

variable {view : ClassView} {target : ClassId} {bases : List Instance} {g g' : Guard ClassId}
  {answers : List Guard.Entry} {found : List (List ClassId)}

/-- A search for paths enters and leaves classes as a run does, whatever the base edges are. -/
theorem Searches.runs (h : view.Searches target bases g answers found g') :
    Guard.Runs g answers g' := by
  induction h with
  | done g => exact .start g
  | arrive _ _ ih => exact ih
  | @enter base _ g g₁ g' below answers _ _ _ hentered hbelow _ ihbelow ihrest =>
    have hinto : Guard.Runs g [.entered] (g.enter base.head).2 := by
      rw [← hentered]
      exact (Guard.Runs.start g).enter base.head
    -- below the class it is still the one that was entered last
    have hleave : g₁.CanLeave base.head := by
      unfold Guard.CanLeave
      rw [hbelow.restored.path, Guard.path_of_entered hentered]
      rfl
    exact ((hinto.trans ihbelow).leave hleave).trans ihrest
  | @refuse base _ g _ _ _ _ _ _ ih => exact ((Guard.Runs.start g).enter base.head).trans ih

/-- The search within a limit is done with its guard when it ends. -/
theorem path_spentGuard (view : ClassView) (limit : Nat) (c target : ClassId) :
    (view.spentGuard limit c target).path = [] := by
  cases limit with
  | zero => rfl
  | succ limit =>
    obtain ⟨answers, hsearch⟩ := view.exists_searches_from_start limit c target
    exact hsearch.restored.path

end ClassView

namespace Registry

open Guard

variable {r : Registry} {types : Interner} {target : ClassId} {fuel : Nat}
  {seen : List ClassId} {g : Guard ClassId}

/-- The search gives its guard back, whatever classes have been met before. -/
def BalancedSearch {α : Type} (search : ShapeSearch α) : Prop :=
  ∀ seen, Balanced (search.run seen)

namespace BalancedSearch

variable {α β : Type} {search : ShapeSearch α} {next : α → ShapeSearch β}

theorem pure (a : α) : BalancedSearch (Pure.pure a : ShapeSearch α) :=
  fun seen => Balanced.pure (a, seen)

theorem bind (hsearch : BalancedSearch search) (hnext : ∀ a, BalancedSearch (next a)) :
    BalancedSearch (search >>= next) :=
  fun seen => (hsearch seen).bind fun out => hnext out.1 out.2

/-- One class further down. The classes met are kept beside the guard. -/
theorem scope {body : ShapeSearch Bool} (hbody : BalancedSearch body) (c : ClassId) :
    BalancedSearch (Guard.scope c body : ShapeSearch (Except Entry Bool)) := by
  intro seen
  have hscope : (Guard.scope c body : ShapeSearch (Except Entry Bool)).run seen =
      (do match ← Guard.scope c (body.run seen) with
        | .ok out => return (.ok out.1, out.2)
        | .error refused => return (.error refused, seen) : StateM (Guard ClassId) _) := by
    funext g
    show (((Guard.scope c body : ShapeSearch (Except Entry Bool)).run seen).run g) = StateT.run _ g
    rw [scope_run, StateT.run_bind, run_scope]
    split
    · rfl
    · rfl
  rw [hscope]
  refine ((hbody seen).scope c).bind fun outcome => ?_
  cases outcome with
  | ok out => exact .pure _
  | error refused => exact .pure _

/-- Asking one class after the other is such a search. -/
theorem anyM {f : ClassId → ShapeSearch Bool} (hf : ∀ c, BalancedSearch (f c))
    (cs : List ClassId) : BalancedSearch (cs.anyM f) := by
  induction cs with
  | nil => exact .pure false
  | cons c cs ih =>
    rw [List.anyM]
    refine (hf c).bind fun found => ?_
    cases found with
    | true => exact .pure true
    | false => exact ih

end BalancedSearch

variable [Digest TypeData]

theorem balanced_lookInto (hbelow : ∀ c, BalancedSearch (r.shapeReaches types target fuel c))
    (c : ClassId) : BalancedSearch (r.lookInto types target fuel c) := by
  intro seen g
  rw [lookInto_run]
  split
  · exact BalancedSearch.pure true seen g
  · split
    · exact BalancedSearch.pure false seen g
    · exact hbelow c (c :: seen) g

/-- The search through shapes gives its guard back, whatever the shapes are. -/
theorem balanced_shapeReaches (r : Registry) (types : Interner) (target : ClassId) (fuel : Nat)
    (current : ClassId) : BalancedSearch (r.shapeReaches types target fuel current) := by
  induction fuel generalizing current with
  | zero => exact .pure true
  | succ fuel ih =>
    rw [shapeReaches]
    split
    · exact .pure false
    · rename_i shape hshape
      have hmentioned := BalancedSearch.anyM (balanced_lookInto ih) (mentioned types shape)
      refine (hmentioned.scope current).bind fun outcome => ?_
      cases outcome with
      | ok found => exact .pure _
      | error refused => exact .pure _

omit [Digest TypeData] in
/-- Two ways of looking into classes agree on a list if they agree whenever the guard is as it
was. -/
theorem anyM_congr {f f' : ClassId → ShapeSearch Bool} (hf : ∀ c, BalancedSearch (f c))
    (heq : ∀ c seen g', Restored g g' → ((f' c).run seen).run g' = ((f c).run seen).run g')
    (cs : List ClassId) {g' : Guard ClassId} (hg' : Restored g g') (seen : List ClassId) :
    ((cs.anyM f').run seen).run g' = ((cs.anyM f).run seen).run g' := by
  induction cs generalizing seen g' with
  | nil => rfl
  | cons c cs ih =>
    obtain ⟨-, -, hrestored⟩ := hf c seen g'
    rw [List.anyM, List.anyM, StateT.run_bind, StateT.run_bind, StateT.run_bind, StateT.run_bind,
      heq c seen g' hg']
    show StateT.run (StateT.run _ (((f c).run seen).run g').1.2) (((f c).run seen).run g').2 =
      StateT.run (StateT.run _ (((f c).run seen).run g').1.2) (((f c).run seen).run g').2
    cases (((f c).run seen).run g').1.1 with
    | true => rfl
    | false => exact ih (hg'.trans hrestored) _

/-- With fuel for all classes that the guard may take onto its path, more of it makes no
difference. -/
theorem shapeReaches_succ (hdepth : g.depth ≤ g.maxDepth) (hfuel : g.maxDepth < g.depth + fuel)
    (current : ClassId) (seen : List ClassId) :
    ((r.shapeReaches types target (fuel + 1) current).run seen).run g =
      ((r.shapeReaches types target fuel current).run seen).run g := by
  induction fuel generalizing current seen g with
  | zero => exact absurd hfuel (Nat.not_lt.mpr hdepth)
  | succ fuel ih =>
    cases hshape : r.shape? current with
    | none => rw [shapeReaches, shapeReaches, hshape]
    | some shape =>
      by_cases hentered : (g.enter current).1 = .entered
      · rw [shapeReaches_run hshape hentered, shapeReaches_run hshape hentered]
        have hless := (entered_iff.mp hentered).2.1
        -- one class more on the path, so one unit of fuel less is needed
        have hdeeper : (g.enter current).2.depth = g.depth + 1 :=
          congrArg List.length (path_of_entered hentered)
        have hmax : (g.enter current).2.maxDepth = g.maxDepth := rfl
        -- a search into a class gives the path back, so the next one starts from the same depth
        have hinto : ∀ c seen g', Restored (g.enter current).2 g' →
            ((r.lookInto types target (fuel + 1) c).run seen).run g' =
              ((r.lookInto types target fuel c).run seen).run g' := by
          intro c seen g' hg'
          have hd := hg'.depth
          have hm := hg'.maxDepth
          rw [lookInto_run, lookInto_run, ih (by omega) (by omega)]
        rw [anyM_congr (balanced_lookInto (r.balanced_shapeReaches types target fuel)) hinto
          (mentioned types shape) (.refl _) seen]
      · rw [shapeReaches_run_of_refused hshape hentered,
          shapeReaches_run_of_refused hshape hentered]

/-- The fuel of the search for recursive shapes does not run out. -/
theorem isRecursiveShape_eq (r : Registry) (types : Interner) (c : ClassId)
    (hfuel : Limits.shapes < fuel) :
    r.isRecursiveShape types c =
      (((r.shapeReaches types c fuel c).run []).run (Guard.ofProfile .tupleShapes)).1.1 := by
  induction fuel with
  | zero => exact absurd hfuel (Nat.not_lt_zero _)
  | succ fuel ih =>
    rcases Nat.eq_or_lt_of_le (Nat.le_of_lt_succ hfuel) with rfl | hless
    · rfl
    · rw [ih hless, shapeReaches_succ (Nat.zero_le _)
        (show Limits.shapes < 0 + fuel from (Nat.zero_add fuel).symm ▸ hless)]

end Registry

/-! ## Discipline -/

namespace Guard

open Registry

/-- In every run of a guard from its start no key is on the path twice and no more keys are than
the depth limit permits. The attempts are counted up to the end of the counter, and of those that
it can count no more succeed than the step limit permits. The guard tells whether some attempt
was refused for a limit, and never forgets it. An attempt that is refused leaves the path alone.

On every hierarchy, with whatever cycles, the search for paths within a limit and the search
through tuple shapes come to an end, use their guards by such runs and give the paths back as
they were, from any start on and so with nothing on them in the end. -/
theorem runs_disciplined [Digest TypeData] :
    (∀ (κ : Type) [DecidableEq κ] (p : Profile) (answers : List Entry) (g : Guard κ),
      Runs (.ofProfile p) answers g →
        g.path.Nodup ∧ g.depth ≤ p.maxDepth ∧
        g.iterations = min answers.length Limits.counter ∧
        (answers.take Limits.counter).count .entered ≤ p.maxIterations ∧
        (g.exceeded = true ↔ ∃ answer ∈ answers, answer.isExceeded = true) ∧
        (∀ more g', Runs g more g' → g.exceeded = true → g'.exceeded = true) ∧
        ∀ k, (g.enter k).1 ≠ .entered → (g.enter k).2.path = g.path) ∧
    (∀ (view : ClassView) (target : ClassId),
      (∀ bases g answers found g', view.Searches target bases g answers found g' →
        Runs g answers g' ∧ Restored g g') ∧
      ∀ (limit : Nat) (c : ClassId), (view.spentGuard limit c target).path = [] ∧
        ∃ answers, view.Searches target (view.bases c) (ClassView.pathGuard (limit + 1)) answers
          (view.boundedPaths (limit + 1) c target) (view.spentGuard (limit + 1) c target)) ∧
    ∀ (r : Registry) (types : Interner) (c : ClassId) (fuel : Nat), Limits.shapes < fuel →
      (∀ target seen, Balanced ((r.shapeReaches types target fuel c).run seen)) ∧
        let spent := ((r.shapeReaches types c fuel c).run []).run (ofProfile .tupleShapes)
        r.isRecursiveShape types c = spent.1.1 ∧ spent.2.path = [] := by
  refine ⟨fun κ _ p answers g hrun => ?_, fun view target =>
      ⟨fun bases g answers found g' hsearch => ⟨hsearch.runs, hsearch.restored⟩, fun limit c =>
        ⟨view.path_spentGuard limit c target, view.exists_searches_from_start limit c target⟩⟩,
    fun r types c fuel hfuel => ⟨fun target => r.balanced_shapeReaches types target fuel c,
      r.isRecursiveShape_eq types c hfuel, ?_⟩⟩
  -- what any run knows of its attempts, then the two searches
  · have ht := hrun.tally (.start p)
    refine ⟨ht.nodup, ht.depth_le, ht.iterations, ht.entered_le, ?_, ?_, fun k hrefused => ?_⟩
    · rw [ht.exceeded, List.any_eq_true]
      rfl
    · intro more g' hmore hexceeded
      rw [ht.exceeded] at hexceeded
      rw [(hmore.tally ht).exceeded, List.any_append]
      exact Bool.or_eq_true_iff.mpr (.inl hexceeded)
    · exact (restored_of_refused hrefused).path
  · obtain ⟨-, -, hrestored⟩ := r.balanced_shapeReaches types c fuel c [] (.ofProfile .tupleShapes)
    exact hrestored.path

/-- Two keys are entered, the second one by a scope inside of which the first is met again, and
one step too many is attempted. The other searches are among edges and among shapes that form
cycles. -/
theorem loops_runs_disciplined :
    (∃ answers, ∃ g : Guard Nat, Runs (.ofProfile (.custom 3 4)) answers g ∧
      answers = [.entered, .entered, .cycle, .entered, .iterationsExceeded] ∧ g.path = [3, 1] ∧
      g.path.Nodup ∧ g.depth ≤ 3 ∧ g.iterations = 5 ∧ g.exceeded = true) ∧
    (ClassView.loops.spentGuard 3 .object .tuple).path = [] ∧
    (((Hierarchy.rally.classes.shapeReaches Hierarchy.rally.types ⟨3⟩ 65 ⟨3⟩).run []).run
      (ofProfile .tupleShapes)).2.path = [] := by
  obtain ⟨hruns, hpaths, hshapes⟩ := runs_disciplined
  let start : Guard Nat := ofProfile (.custom 3 4)
  let again : StateM (Guard Nat) Entry := modifyGet (·.enter 1)
  have hscope : Runs start _ ((Guard.scope 2 again).run (start.enter 1).2).2 :=
    ((Runs.start start).enter 1).scope 2 (by decide) ((Runs.start _).enter 1) (by decide)
  have hrun := (hscope.enter 3).enter 4
  obtain ⟨hnodup, hdepth, hcount, -, hexceeded, -, -⟩ := hruns Nat _ _ _ hrun
  refine ⟨⟨_, _, hrun, by decide, by decide, hnodup, hdepth, hcount, hexceeded.mpr ?_⟩,
    ((hpaths _ _).2 _ _).1, (hshapes _ _ _ 65 (by decide)).2.2⟩
  exact ⟨.iterationsExceeded, by decide, rfl⟩

end Guard

end Supertypes
