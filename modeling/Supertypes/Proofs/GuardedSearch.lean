import Supertypes.Classes.Registry
import Supertypes.Proofs.StepLimit

/-!
# Guarded searches come to an end

The search for paths within a limit is a recursion that nothing but its guard stops, whatever the
base edges are. Here it is as a relation that knows of no further bound, so that to be related is
to have come to an end.

- `ClassView.Searches`: a search along some base edges, with the answers to its attempts to enter
  a class. `ClassView.Searches.unique` says that its outcome is determined, and
  `ClassView.Searches.restored` that it leaves the path of the guard as it has found it.
- `ClassView.exists_searches`: on every hierarchy there is such a search, and it finds what
  `ClassView.guardedPaths` computes.
- `ClassView.LimitedSearch`: the search for paths of at most so many edges.
  `ClassView.LimitedSearch.found_eq` says that it finds what `ClassView.paths` computes.
- `ClassView.limited_paths`: what it finds are paths of base edges, short enough and without a
  class that occurs twice.
-/

namespace Supertypes

namespace ClassView

variable {view : ClassView} {target c : ClassId} {bases rest : List Instance} {base : Instance}
  {g g' g₁ : Guard ClassId} {answers below : List Guard.Entry} {found tails : List (List ClassId)}

/-! ## Searches -/

/-- A search for paths to `target` along some base edges, one after the other. It starts and ends
with a guard, and lists the answers to its attempts to enter a class and the paths that it
finds. -/
inductive Searches (view : ClassView) (target : ClassId) : List Instance → Guard ClassId →
    List Guard.Entry → List (List ClassId) → Guard ClassId → Prop
  | done (g : Guard ClassId) : Searches view target [] g [] [] g
  /-- The edge leads to the target. -/
  | arrive {base : Instance} {rest : List Instance} {g g' : Guard ClassId}
    {answers : List Guard.Entry} {found : List (List ClassId)} (htarget : base.head = target)
    (hrest : Searches view target rest g answers found g') :
    Searches view target (base :: rest) g answers ([target] :: found) g'
  /-- The class that the edge leads to is entered, searched and left. -/
  | enter {base : Instance} {rest : List Instance} {g g₁ g' : Guard ClassId}
    {below answers : List Guard.Entry} {tails found : List (List ClassId)}
    (hne : base.head ≠ target) (hentered : (g.enter base.head).1 = .entered)
    (hbelow : Searches view target (view.bases base.head) (g.enter base.head).2 below tails g₁)
    (hrest : Searches view target rest g₁.leave answers found g') :
    Searches view target (base :: rest) g (.entered :: below ++ answers)
      (tails.map (base.head :: ·) ++ found) g'
  /-- The class that the edge leads to is not entered. -/
  | refuse {base : Instance} {rest : List Instance} {g g' : Guard ClassId}
    {answers : List Guard.Entry} {found : List (List ClassId)} (hne : base.head ≠ target)
    (hrefused : (g.enter base.head).1 ≠ .entered)
    (hrest : Searches view target rest (g.enter base.head).2 answers found g') :
    Searches view target (base :: rest) g ((g.enter base.head).1 :: answers) found g'

/-- A search has one outcome. -/
theorem Searches.unique {answers' : List Guard.Entry} {found' : List (List ClassId)}
    {g'' : Guard ClassId} (h : view.Searches target bases g answers found g')
    (h' : view.Searches target bases g answers' found' g'') :
    answers' = answers ∧ found' = found ∧ g'' = g' := by
  induction h generalizing answers' found' g'' with
  -- what the next edge leads to and what the guard says decide which rule applies
  | done g =>
    cases h' with
    | done => exact ⟨rfl, rfl, rfl⟩
  | arrive htarget _ ih =>
    cases h' with
    | arrive _ hrest' =>
      obtain ⟨rfl, rfl, rfl⟩ := ih hrest'
      exact ⟨rfl, rfl, rfl⟩
    | enter hne => exact absurd htarget hne
    | refuse hne => exact absurd htarget hne
  | enter hne hentered _ _ ihbelow ihrest =>
    cases h' with
    | arrive htarget => exact absurd htarget hne
    | enter _ _ hbelow' hrest' =>
      obtain ⟨rfl, rfl, rfl⟩ := ihbelow hbelow'
      obtain ⟨rfl, rfl, rfl⟩ := ihrest hrest'
      exact ⟨rfl, rfl, rfl⟩
    | refuse _ hrefused => exact absurd hentered hrefused
  | refuse hne hrefused _ ih =>
    cases h' with
    | arrive htarget => exact absurd htarget hne
    | enter _ hentered => exact absurd hentered hrefused
    | refuse _ _ hrest' =>
      obtain ⟨rfl, rfl, rfl⟩ := ih hrest'
      exact ⟨rfl, rfl, rfl⟩

/-- A search leaves the path of the guard as it has found it. -/
theorem Searches.restored (h : view.Searches target bases g answers found g') :
    Guard.Restored g g' := by
  induction h with
  | done g => exact .refl g
  | arrive _ _ ih => exact ih
  | enter _ hentered _ _ ihbelow ihrest =>
    exact (Guard.restored_of_entered hentered ihbelow).trans ihrest
  | refuse _ hrefused _ ih => exact (Guard.restored_of_refused hrefused).trans ih

/-- Searches along some edges and then along others. -/
theorem Searches.append {more : List Guard.Entry} {others : List (List ClassId)}
    (h : view.Searches target bases g answers found g₁)
    (h' : view.Searches target rest g₁ more others g') :
    view.Searches target (bases ++ rest) g (answers ++ more) (found ++ others) g' := by
  induction h with
  | done g => exact h'
  | arrive htarget _ ih => exact .arrive htarget (ih h')
  | enter hne hentered hbelow _ _ ih =>
    rw [List.append_assoc, List.append_assoc]
    exact .enter hne hentered hbelow (ih h')
  | refuse hne hrefused _ ih => exact .refuse hne hrefused (ih h')

/-! ## There is always a search -/

/-- Along one edge, if there is a search from the class that it leads to. -/
theorem exists_searches_via {length : Nat}
    (hbelow : (g.enter base.head).1 = .entered → ∃ below,
      view.Searches target (view.bases base.head) (g.enter base.head).2 below
        ((view.guardedPaths target length base.head).run (g.enter base.head).2).1
        ((view.guardedPaths target length base.head).run (g.enter base.head).2).2) :
    ∃ answers, view.Searches target [base] g answers
      ((view.guardedPathsVia target length base).run g).1
      ((view.guardedPathsVia target length base).run g).2 := by
  by_cases htarget : base.head = target
  · unfold guardedPathsVia
    rw [if_pos htarget]
    exact ⟨[], .arrive htarget (.done g)⟩
  · rw [show (view.guardedPathsVia target length base).run g = _ from
      guardedPathsVia_run (e := ⟨base, 0⟩) htarget g]
    split
    · rename_i hentered
      obtain ⟨below, hbelow⟩ := hbelow hentered
      have hsearch := Searches.enter htarget hentered hbelow (.done _)
      rw [List.append_nil, List.append_nil] at hsearch
      exact ⟨_, hsearch⟩
    · rename_i hrefused
      exact ⟨_, .refuse htarget hrefused (.done _)⟩

/-- A guard stops every search: with levels for all classes that it may take onto its path, a
search comes to an end and finds what is computed. -/
theorem exists_searches (view : ClassView) (target : ClassId) {length : Nat} {c : ClassId}
    {g : Guard ClassId} (hdepth : g.depth ≤ g.maxDepth) (hlevels : g.maxDepth < g.depth + length) :
    ∃ answers, view.Searches target (view.bases c) g answers
      ((view.guardedPaths target length c).run g).1
      ((view.guardedPaths target length c).run g).2 := by
  induction length generalizing c g with
  | zero => exact absurd hlevels (Nat.not_lt.mpr hdepth)
  | succ length ih =>
    rw [guardedPaths_succ_run]
    generalize view.bases c = bases
    induction bases generalizing g with
    | nil => exact ⟨[], .done g⟩
    | cons base rest ihrest =>
      have hfirst : ∃ answers, view.Searches target [base] g answers
          ((view.guardedPathsVia target length base).run g).1
          ((view.guardedPathsVia target length base).run g).2 := by
        refine exists_searches_via fun hentered => ?_
        -- one level further down there is one level less
        obtain ⟨-, hless, -⟩ := Guard.entered_iff.mp hentered
        have hdeeper : (g.enter base.head).2.depth = g.depth + 1 :=
          congrArg List.length (Guard.path_of_entered hentered)
        have hmax : (g.enter base.head).2.maxDepth = g.maxDepth := rfl
        exact ih (by omega) (by omega)
      obtain ⟨answers, hfirst⟩ := hfirst
      have hrestored := hfirst.restored
      obtain ⟨more, hrest⟩ := ihrest (hrestored.depth.trans_le (hrestored.maxDepth ▸ hdepth))
        (by rw [hrestored.depth, hrestored.maxDepth]; exact hlevels)
      rw [List.mapM_cons]
      exact ⟨_, hfirst.append hrest⟩

/-- A search that is never refused for the steps has not run out of them. -/
theorem Searches.iterations_le (h : view.Searches target bases g answers found g')
    (hsteps : .iterationsExceeded ∉ answers) (hg : g.iterations ≤ g.maxIterations) :
    g'.iterations ≤ g'.maxIterations := by
  induction h with
  | done g => exact hg
  | arrive _ _ ih => exact ih hsteps hg
  | enter _ hentered _ _ ihbelow ihrest =>
    rw [List.cons_append, List.mem_cons, not_or, List.mem_append, not_or] at hsteps
    exact ihrest hsteps.2.2 (ihbelow hsteps.2.1 (Guard.entered_iff.mp hentered).1)
  | refuse _ _ _ ih =>
    rw [List.mem_cons, not_or] at hsteps
    refine ih hsteps.2 (Nat.not_lt.mp fun hspent => ?_)
    exact hsteps.1 (Guard.iterationsExceeded_iff.mpr hspent).symm

/-! ## What a search finds -/

/-- A path that leads from the end of the guard's path to the target. It goes through no class on
the guard's path and through none twice, and there are levels for the classes between its
ends. -/
structure Onward (g : Guard ClassId) (target : ClassId) (path : List ClassId) : Prop where
  length_le : g.depth + path.length ≤ g.maxDepth + 1
  nodup : path.Nodup
  new : ∀ k ∈ path, k ∈ g.path → k = target

theorem Onward.of_restored {path : List ClassId} (h : Guard.Restored g g')
    (hpath : Onward g' target path) : Onward g target path where
  length_le := by
    rw [← h.depth, ← h.maxDepth]
    exact hpath.length_le
  nodup := hpath.nodup
  new := h.path ▸ hpath.new

/-- An edge to the target. -/
theorem Onward.single (hdepth : g.depth ≤ g.maxDepth) : Onward g target [target] where
  length_le := Nat.add_le_add_right hdepth 1
  nodup := List.nodup_singleton target
  new _ hk _ := List.mem_singleton.mp hk

/-- A class that has been entered comes before the paths found below it. -/
theorem Onward.cons {d : ClassId} {path : List ClassId} (hentered : (g.enter d).1 = .entered)
    (hne : d ≠ target) (h : Onward (g.enter d).2 target path) : Onward g target (d :: path) := by
  have hpath := Guard.path_of_entered hentered
  obtain ⟨-, -, hnew⟩ := Guard.entered_iff.mp hentered
  refine ⟨?_, List.nodup_cons.mpr ⟨fun hd => ?_, h.nodup⟩, List.forall_mem_cons.mpr ⟨?_, ?_⟩⟩
  · have hlength := h.length_le
    have hdeeper : (g.enter d).2.depth = g.depth + 1 := congrArg List.length hpath
    have hmax : (g.enter d).2.maxDepth = g.maxDepth := rfl
    rw [List.length_cons]
    omega
  · -- below `d` the guard has it on its path, and it is not the target
    exact hne (h.new d hd (hpath ▸ List.mem_cons_self))
  · exact fun hd => absurd hd hnew
  · exact fun k hk hmem => h.new k hk (hpath ▸ List.mem_cons_of_mem d hmem)

/-- What a search finds leads on from the path of the guard. -/
theorem Searches.onward (h : view.Searches target bases g answers found g')
    (hdepth : g.depth ≤ g.maxDepth) : ∀ path ∈ found, Onward g target path := by
  induction h with
  | done g => exact fun path hpath => absurd hpath List.not_mem_nil
  | arrive htarget _ ih => exact List.forall_mem_cons.mpr ⟨.single hdepth, ih hdepth⟩
  | @enter base rest g g₁ g' below answers tails found hne hentered hbelow hrest ihbelow ihrest =>
    obtain ⟨-, hless, -⟩ := Guard.entered_iff.mp hentered
    have hdeeper : (g.enter base.head).2.depth = g.depth + 1 :=
      congrArg List.length (Guard.path_of_entered hentered)
    have hleft := Guard.restored_of_entered hentered hbelow.restored
    intro path hpath
    rcases List.mem_append.mp hpath with hpath | hpath
    · obtain ⟨tail, htail, rfl⟩ := List.mem_map.mp hpath
      exact .cons hentered hne (ihbelow (hdeeper.trans_le hless) tail htail)
    · refine .of_restored hleft (ihrest ?_ path hpath)
      rw [hleft.depth, hleft.maxDepth]
      exact hdepth
  | @refuse base rest g g' answers found hne hrefused _ ih =>
    have hleft := Guard.restored_of_refused hrefused
    intro path hpath
    refine .of_restored hleft (ih ?_ path hpath)
    rw [hleft.depth, hleft.maxDepth]
    exact hdepth

/-! ## Within a limit -/

/-- The search for paths of at most `limit` edges, with the answers to its attempts to enter a
class and the paths that it finds. Nothing is searched if no path is short enough. -/
inductive LimitedSearch (view : ClassView) (c target : ClassId) :
    Nat → List Guard.Entry → List (List ClassId) → Prop
  | none : LimitedSearch view c target 0 [] []
  | some {limit : Nat} {answers : List Guard.Entry} {found : List (List ClassId)}
    {g : Guard ClassId}
    (hsearch : view.Searches target (view.bases c) (pathGuard (limit + 1)) answers found g) :
    LimitedSearch view c target (limit + 1) answers found

/-- From the start there are levels for paths of the length asked for. -/
theorem exists_searches_from_start (view : ClassView) (limit : Nat) (c target : ClassId) :
    ∃ answers, view.Searches target (view.bases c) (pathGuard (limit + 1)) answers
      (view.boundedPaths (limit + 1) c target) (view.spentGuard (limit + 1) c target) := by
  have hdepth : (pathGuard (limit + 1)).depth = 0 := rfl
  have hmax : (pathGuard (limit + 1)).maxDepth = limit := rfl
  exact view.exists_searches target (by omega) (by omega)

/-- Each search within a limit finds the paths that are computed. -/
theorem LimitedSearch.found_eq {limit : Nat} (h : view.LimitedSearch c target limit answers found) :
    found = view.paths (.some limit) c target := by
  cases h with
  | none => rfl
  | some hsearch =>
    obtain ⟨answers', hsearch'⟩ := view.exists_searches_from_start _ c target
    exact (hsearch'.unique hsearch).2.1

/-- The guard that is left behind tells that no attempt was refused for the steps. -/
theorem LimitedSearch.iterations_le {limit : Nat}
    (h : view.LimitedSearch c target limit answers found)
    (hsteps : .iterationsExceeded ∉ answers) :
    (view.spentGuard limit c target).iterations ≤ Limits.steps := by
  cases h with
  | none => exact Nat.zero_le _
  | some hsearch =>
    obtain ⟨answers', hsearch'⟩ := view.exists_searches_from_start _ c target
    obtain ⟨-, -, hspent⟩ := hsearch.unique hsearch'
    have hmax : (view.spentGuard _ c target).maxIterations = Limits.steps :=
      hsearch'.restored.maxIterations
    rw [← hmax, hspent]
    exact hsearch.iterations_le hsteps (Nat.zero_le _)

/-- On every hierarchy, whatever its base edges, the search within a limit comes to an end. The
paths that it finds lead from `c` to `target` by base edges, have no more edges than the limit
permits, and go to no class twice. Only the class that they start from may be gone to once. -/
theorem limited_paths (view : ClassView) (limit : Nat) (c target : ClassId) :
    (∃ answers, view.LimitedSearch c target limit answers (view.paths (some limit) c target)) ∧
    ∀ path ∈ view.paths (some limit) c target,
      view.Leads target c path ∧ path.length ≤ limit ∧ path.Nodup := by
  cases limit with
  | zero => exact ⟨⟨[], .none⟩, fun path hpath => absurd hpath List.not_mem_nil⟩
  | succ limit =>
    obtain ⟨answers, hsearch⟩ := view.exists_searches_from_start limit c target
    refine ⟨⟨answers, .some hsearch⟩, fun path hpath => ⟨leads_of_mem_paths hpath, ?_⟩⟩
    have honward := hsearch.onward (Nat.zero_le _) path hpath
    have hlength := honward.length_le
    rw [show (pathGuard (limit + 1)).depth = 0 from rfl, Nat.zero_add] at hlength
    exact ⟨hlength, honward.nodup⟩

/-- The built-in classes with edges that no check has let through: `object` is a base of itself,
and `tuple` and `object` are bases of each other. -/
def loops : ClassView :=
  Registry.builtin.view.withEdges [(.object, .bare .object), (.object, .bare .tuple)]

/-- The way from `object` to `tuple` that goes round by `object` once more. -/
theorem loops_limited_paths :
    [.object, .tuple] ∈ loops.paths (some 3) .object .tuple ∧
      loops.Leads .tuple .object [.object, .tuple] ∧ [ClassId.object, .tuple].length ≤ 3 ∧
        [ClassId.object, .tuple].Nodup :=
  have hpath : [.object, .tuple] ∈ loops.paths (some 3) .object .tuple := by decide +kernel
  ⟨hpath, (loops.limited_paths 3 .object .tuple).2 _ hpath⟩

end ClassView

end Supertypes
