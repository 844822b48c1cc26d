import Supertypes.Proofs.GroundAnswers
import Supertypes.Proofs.InStep
import Supertypes.Proofs.Renaming

/-!
# Derivation paths in step

- `Guard.Corresponds`: guards of two walks that have entered counterparts of the same keys.
- `Guard.InStep K R x x'`: from guards that correspond, what the walks `x` and `x'` find is
  related by `R`, and the guards correspond again. It comes with a rule for sequences, one for
  loops and one for walking one key further down.
- `ClassView.forall₂_pathsFrom` and `ClassView.inStep_guardedPaths`: where base edges lead to
  counterparts, so do the derivation paths, in the same order.
-/

namespace Supertypes

open Interner (SameOutcome)

/-! ## Guards -/

namespace Guard

variable {κ κ' α α' β β' : Type} {K : κ → κ' → Prop}

/-- The guards have the same limits and counts, and counterparts on their paths. -/
structure Corresponds (K : κ → κ' → Prop) (g : Guard κ) (g' : Guard κ') : Prop where
  maxDepth : g.maxDepth = g'.maxDepth
  maxIterations : g.maxIterations = g'.maxIterations
  path : List.Forall₂ K g.path g'.path
  iterations : g.iterations = g'.iterations

theorem corresponds_ofProfile [DecidableEq κ] [DecidableEq κ'] (p : Profile) :
    Corresponds K (ofProfile p) (ofProfile p) where
  maxDepth := rfl
  maxIterations := rfl
  path := .nil
  iterations := rfl

namespace Corresponds

variable {g : Guard κ} {g' : Guard κ'} (h : Corresponds K g g')

include h

theorem leave [DecidableEq κ] [DecidableEq κ'] : Corresponds K g.leave g'.leave where
  maxDepth := h.maxDepth
  maxIterations := h.maxIterations
  path := by
    show List.Forall₂ K g.path.tail g'.path.tail
    rw [← List.drop_one, ← List.drop_one]
    exact List.forall₂_drop 1 h.path
  iterations := h.iterations

/-- Attempts to enter counterparts have the same outcome. -/
theorem enter [DecidableEq κ] [DecidableEq κ']
    (hK : ∀ {k l k' l'}, K k k' → K l l' → (k = l ↔ k' = l')) {k : κ} {k' : κ'} (hk : K k k') :
    (g.enter k).1 = (g'.enter k').1 ∧ Corresponds K (g.enter k).2 (g'.enter k').2 := by
  have hmem : k ∈ g.path ↔ k' ∈ g'.path := by
    constructor
    · intro hmem
      obtain ⟨l', hl', hkl'⟩ := exists_of_mem_left h.path hmem
      rwa [← (hK hkl' hk).mp rfl]
    · intro hmem
      obtain ⟨l, hl, hlk'⟩ := exists_of_mem_right h.path hmem
      rwa [← (hK hlk' hk).mpr rfl]
  have hverdict : g.count.verdict k = g'.count.verdict k' := by
    unfold verdict count depth
    dsimp only
    rw [h.maxIterations, h.iterations, h.maxDepth, h.path.length_eq, if_congr hmem rfl rfl]
  refine ⟨hverdict, h.maxDepth, h.maxIterations, ?_, ?_⟩
  · unfold Guard.enter
    dsimp only
    rw [hverdict]
    split
    · exact .cons hk h.path
    · exact h.path
  · show min (g.iterations + 1) Limits.counter = min (g'.iterations + 1) Limits.counter
    rw [h.iterations]

end Corresponds

/-- From guards that correspond, the walks find what is related, and leave guards that do. -/
def InStep (K : κ → κ' → Prop) (R : α → α' → Prop) (x : StateM (Guard κ) α)
    (x' : StateM (Guard κ') α') : Prop :=
  ∀ g g', Corresponds K g g' → R (x.run g).1 (x'.run g').1 ∧ Corresponds K (x.run g).2 (x'.run g').2

namespace InStep

variable {R : α → α' → Prop} {S : β → β' → Prop} {x : StateM (Guard κ) α}
  {x' : StateM (Guard κ') α'}

theorem pure {a : α} {a' : α'} (h : R a a') :
    InStep K R (Pure.pure a : StateM (Guard κ) α) (Pure.pure a' : StateM (Guard κ') α') :=
  fun _ _ hg => ⟨h, hg⟩

theorem bind {f : α → StateM (Guard κ) β} {f' : α' → StateM (Guard κ') β'} (hx : InStep K R x x')
    (hf : ∀ a a', R a a' → InStep K S (f a) (f' a')) : InStep K S (x >>= f) (x' >>= f') := by
  intro g g' hg
  obtain ⟨ha, hg₁⟩ := hx g g' hg
  exact hf _ _ ha _ _ hg₁

theorem mapM {xs : List α} {xs' : List α'} {f : α → StateM (Guard κ) β}
    {f' : α' → StateM (Guard κ') β'} (hxs : List.Forall₂ R xs xs')
    (hf : ∀ a a', R a a' → InStep K S (f a) (f' a')) :
    InStep K (List.Forall₂ S) (xs.mapM f) (xs'.mapM f') := by
  induction hxs with
  | nil => exact .pure .nil
  | cons ha _ ih =>
    rw [List.mapM_cons, List.mapM_cons]
    exact (hf _ _ ha).bind fun b b' hb => ih.bind fun bs bs' hbs => .pure (.cons hb hbs)

/-- Walking counterparts one key further down, or refusing to for the same reason. -/
theorem scope [DecidableEq κ] [DecidableEq κ']
    (hK : ∀ {k l k' l'}, K k k' → K l l' → (k = l ↔ k' = l')) {k : κ} {k' : κ'} (hk : K k k')
    (hx : InStep K R x x') : InStep K (SameOutcome R) (Guard.scope k x) (Guard.scope k' x') := by
  intro g g' hg
  obtain ⟨hentry, hg₁⟩ := hg.enter hK hk
  rw [run_scope, run_scope, ← hentry]
  split
  · obtain ⟨hfound, hg₂⟩ := hx _ _ hg₁
    exact ⟨.ok hfound, hg₂.leave⟩
  · exact ⟨.error _, hg₁⟩

end InStep

end Guard

/-! ## Paths -/

namespace ClassView

variable {ρ : Renaming} {view view' : ClassView} {target target' c c' : ClassId}

/-- The base edges of counterparts lead to counterparts. -/
def SameParents (ρ : Renaming) (view view' : ClassView) : Prop :=
  ∀ c c', ρ.cls c c' →
    List.Forall₂ (fun base base' => ρ.cls base.head base'.head) (view.bases c) (view'.bases c')

variable (hρ : ρ.OneToOne) (hparents : SameParents ρ view view') (htarget : ρ.cls target target')

include hρ hparents htarget

theorem forall₂_pathsFrom (length : Nat) (hc : ρ.cls c c') :
    List.Forall₂ (List.Forall₂ ρ.cls) (view.pathsFrom target length c)
      (view'.pathsFrom target' length c') := by
  induction length generalizing c c' with
  | zero => exact .nil
  | succ length ih =>
    unfold pathsFrom
    refine List.rel_flatMap (hparents c c' hc) fun base base' hbase => ?_
    have heq := hρ.cls hbase htarget
    by_cases hlast : base.head = target
    · rw [if_pos hlast, if_pos (heq.mp hlast)]
      exact .cons (.cons htarget .nil) .nil
    · rw [if_neg hlast, if_neg (mt heq.mpr hlast)]
      exact List.rel_map (fun _ _ hpath => .cons hbase hpath) (ih hbase)

/-- The guards of both walks refuse the same steps. -/
theorem inStep_guardedPaths (length : Nat) (hc : ρ.cls c c') :
    Guard.InStep ρ.cls (List.Forall₂ (List.Forall₂ ρ.cls)) (view.guardedPaths target length c)
      (view'.guardedPaths target' length c') := by
  induction length generalizing c c' with
  | zero => exact .pure .nil
  | succ length ih =>
    unfold guardedPaths
    refine .bind (.mapM (hparents c c' hc) fun base base' hbase => ?_)
      fun found found' hfound => .pure (List.rel_flatten hfound)
    have heq := hρ.cls hbase htarget
    by_cases hlast : base.head = target
    · rw [if_pos hlast, if_pos (heq.mp hlast)]
      exact .pure (.cons (.cons htarget .nil) .nil)
    · rw [if_neg hlast, if_neg (mt heq.mpr hlast)]
      refine (Guard.InStep.scope hρ.cls hbase (ih hbase)).bind ?_
      rintro _ _ (⟨htails⟩ | e)
      · exact .pure (List.rel_map (fun _ _ hpath => .cons hbase hpath) htails)
      · exact .pure .nil

/-- Classes that correspond have the same paths to each other, whatever the limit is. -/
theorem forall₂_paths (hsize : view.size = view'.size) (limit : Option Nat) (hc : ρ.cls c c') :
    List.Forall₂ (List.Forall₂ ρ.cls) (view.paths limit c target)
      (view'.paths limit c' target') := by
  cases limit with
  | none =>
    unfold paths allPaths
    rw [hsize]
    exact forall₂_pathsFrom hρ hparents htarget _ hc
  | some limit =>
    exact (inStep_guardedPaths hρ hparents htarget limit hc _ _ (Guard.corresponds_ofProfile _)).1

end ClassView

end Supertypes
