import Supertypes.Guard

/-!
# What guards do

- `Guard.entered_iff` and `Guard.iterationsExceeded_iff`: when a guard lets a key in, and when it
  refuses one because of the steps. `Guard.isExceeded_of_refused` says that a new key is refused
  for a limit only.
- `Guard.run_scope`: a walk goes one key further down, or is refused.
- `Guard.Restored`: a guard has the path and the limits that it had before. Refused keys leave it
  so, and so do keys that are entered and left.
-/

namespace Supertypes.Guard

variable {κ α : Type} {g g' g'' : Guard κ}

/-! ## The way back -/

/-- The path and the limits are as before. -/
structure Restored (g g' : Guard κ) : Prop where
  path : g'.path = g.path
  maxDepth : g'.maxDepth = g.maxDepth
  maxIterations : g'.maxIterations = g.maxIterations

theorem Restored.refl (g : Guard κ) : Restored g g :=
  ⟨rfl, rfl, rfl⟩

theorem Restored.trans (h : Restored g g') (h' : Restored g' g'') : Restored g g'' where
  path := h'.path.trans h.path
  maxDepth := h'.maxDepth.trans h.maxDepth
  maxIterations := h'.maxIterations.trans h.maxIterations

theorem Restored.depth (h : Restored g g') : g'.depth = g.depth :=
  congrArg List.length h.path

/-! ## Attempts to enter a key -/

variable [DecidableEq κ] {k : κ}

/-- A key is entered if there are steps and levels left and it is new. -/
theorem entered_iff : (g.enter k).1 = .entered ↔
    g.count.iterations ≤ g.maxIterations ∧ g.depth < g.maxDepth ∧ k ∉ g.path := by
  show g.count.verdict k = .entered ↔
    g.count.iterations ≤ g.count.maxIterations ∧ g.count.depth < g.count.maxDepth ∧
      k ∉ g.count.path
  unfold verdict
  split
  · rename_i hsteps
    exact iff_of_false Entry.noConfusion fun h => Nat.not_lt.mpr h.1 hsteps
  · rename_i hsteps
    split
    · rename_i hdepth
      exact iff_of_false Entry.noConfusion fun h => Nat.not_le.mpr h.2.1 hdepth
    · rename_i hdepth
      split
      · rename_i hmem
        exact iff_of_false Entry.noConfusion fun h => h.2.2 hmem
      · rename_i hnew
        exact iff_of_true rfl ⟨Nat.not_lt.mp hsteps, Nat.not_le.mp hdepth, hnew⟩

/-- The steps are looked at before all else. -/
theorem iterationsExceeded_iff :
    (g.enter k).1 = .iterationsExceeded ↔ g.maxIterations < g.count.iterations := by
  show g.count.verdict k = _ ↔ g.count.maxIterations < g.count.iterations
  unfold verdict
  split
  · rename_i hsteps
    exact iff_of_true rfl hsteps
  · rename_i hsteps
    refine iff_of_false ?_ hsteps
    split
    · exact Entry.noConfusion
    · split <;> exact Entry.noConfusion

/-- A key that is not on the path is refused for a limit only. -/
theorem isExceeded_of_refused (hnew : k ∉ g.path) (hrefused : (g.enter k).1 ≠ .entered) :
    (g.enter k).1.isExceeded = true := by
  show (g.count.verdict k).isExceeded = true
  change g.count.verdict k ≠ .entered at hrefused
  change k ∉ g.count.path at hnew
  unfold verdict at hrefused ⊢
  split
  · rfl
  · split
    · rfl
    · rename_i hsteps hdepth
      rw [if_neg hsteps, if_neg hdepth, if_neg hnew] at hrefused
      exact absurd rfl hrefused

theorem path_of_entered (h : (g.enter k).1 = .entered) : (g.enter k).2.path = k :: g.path := by
  show (if (g.enter k).1.isEntered then k :: g.path else g.path) = _
  rw [h]
  rfl

theorem restored_of_refused (h : (g.enter k).1 ≠ .entered) : Restored g (g.enter k).2 where
  path := by
    show (if (g.enter k).1.isEntered then k :: g.path else g.path) = _
    exact if_neg fun hentered => h (of_decide_eq_true hentered)
  maxDepth := rfl
  maxIterations := rfl

/-- Stepping out of a key undoes stepping into it. -/
theorem restored_of_entered (h : (g.enter k).1 = .entered) (h' : Restored (g.enter k).2 g') :
    Restored g g'.leave where
  path := by
    show g'.path.tail = _
    rw [h'.path, path_of_entered h]
    rfl
  maxDepth := h'.maxDepth
  maxIterations := h'.maxIterations

/-- Running a walk one key further down, or refusing to. -/
theorem run_scope (k : κ) (body : StateM (Guard κ) α) (g : Guard κ) :
    (scope k body).run g =
      if (g.enter k).1 = .entered then
        (.ok (body.run (g.enter k).2).1, (body.run (g.enter k).2).2.leave)
      else (.error (g.enter k).1, (g.enter k).2) := by
  have hread : ((getThe (Guard κ) : StateM (Guard κ) (Guard κ)).run g).1 = g := rfl
  have hverdict : g.count.verdict k = (g.enter k).1 := rfl
  unfold scope
  rw [StateT.run_bind]
  show StateT.run _ (g.enter k).2 = _
  rw [hread, hverdict]
  cases (g.enter k).1 <;> rfl

end Supertypes.Guard
