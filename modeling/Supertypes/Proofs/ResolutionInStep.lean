import Supertypes.Proofs.ExpansionInStep

/-!
# Resolving expressions in step

- `TypeExpr.Respelled`: expressions that differ in their names only.
- `Registry.Corresponds`: registries that give counterparts to the same names. `Scope.Renamed`:
  scopes that do so, under other names.
- `Registry.inStep_resolve`: then two such expressions denote the same type, or none for the same
  reason. `Registry.inStep_resolveInstance` and `Registry.inStep_resolveTuple` say so of
  instances and of tuples.
- `Registry.inStep_subject`: a text without parameters in scope means the same in both
  registries.
-/

namespace Supertypes

open Interner

/-! ## Expressions under other names -/

namespace TypeExpr

/-- The expressions differ in their names only, and those are related by `S`. -/
inductive Respelled (S : String → String → Prop) : TypeExpr → TypeExpr → Prop
  | name {w w' : String} {args args' : List TypeExpr} (hw : S w w')
    (hargs : List.Forall₂ (Respelled S) args args') : Respelled S (.name w args) (.name w' args')
  | tuple {es es' : List (Element TypeExpr)}
    (hitems : List.Forall₂ (Respelled S) (es.map Element.item) (es'.map Element.item))
    (hrests : es.map Element.isRest = es'.map Element.isRest) : Respelled S (.tuple es) (.tuple es')
  | union {ms ms' : List TypeExpr} (hms : List.Forall₂ (Respelled S) ms ms') :
    Respelled S (.union ms) (.union ms')

theorem Respelled.refl {S : String → String → Prop} (hS : ∀ w, S w w) (e : TypeExpr) :
    Respelled S e e := by
  induction e using TypeExpr.induct with
  | name head args ih => exact .name (hS head) (List.forall₂_same.mpr ih)
  | tuple elements ih => exact .tuple (List.forall₂_same.mpr (List.forall_mem_map.mpr ih)) rfl
  | union members ih => exact .union (List.forall₂_same.mpr ih)

end TypeExpr

/-- The same complaint, about names that are used for the same. -/
inductive ResolveError.Reworded (S : String → String → Prop) : ResolveError → ResolveError → Prop
  | notAClass {w w' : String} (hw : S w w') : Reworded S (.notAClass w) (.notAClass w')
  | same (e : ResolveError) : Reworded S e e

variable [Digest TypeData]

namespace Registry

variable {ρ : Renaming} {t t' : Interner} {r r' : Registry} {scope scope' : Scope}

/-! ## Resolution only adds -/

omit [Digest TypeData] in
instance grows_resolveApplied (r : Registry) (scope : Scope) (name : String) (count : Nat)
    (args : Resolving (List TypeId)) [Grows args.run] :
    Grows (r.resolveApplied scope name count args).run := by
  cases hfind : scope.find name with
  | some p =>
    rw [resolveApplied_of_param (by rw [hfind]; rfl)]
    infer_instance
  | none =>
    cases hc : r.lookup name with
    | none =>
      rw [resolveApplied_of_unknown hfind hc]
      infer_instance
    | some c =>
      rw [resolveApplied_of_class hfind hc]
      split
      · infer_instance
      · split
        · infer_instance
        · infer_instance

theorem grows_resolvePlain {name : String} {plain : Interning TypeId}
    (h : resolvePlain scope name = some plain) : Grows plain := by
  rcases resolvePlain_eq_some h with ⟨p, -, rfl⟩ | ⟨-, ⟨-, rfl⟩ | ⟨-, rfl⟩⟩
  · infer_instance
  · infer_instance
  · infer_instance

instance grows_resolve (r : Registry) (scope : Scope) (e : TypeExpr) :
    Grows (r.resolve scope e).run := by
  induction e using TypeExpr.induct with
  | name head args ih =>
    have hlist : Grows (r.resolveList scope args).run := by
      rw [resolveList_eq]
      exact .except_mapM_of_mem ih
    rcases applied_or_plain scope head args with hplain | ⟨plain, rfl, hplain⟩
    · rw [resolve_applied hplain]
      infer_instance
    · have := grows_resolvePlain hplain
      rw [resolve_plain hplain]
      infer_instance
  | tuple elements ih =>
    have hitems : Grows (r.resolveElements scope elements).run := by
      rw [resolveElements_eq]
      refine .except_mapM_of_mem fun e he => ?_
      have := ih e he
      infer_instance
    rw [resolve]
    infer_instance
  | union members ih =>
    have hmembers : Grows (r.resolveList scope members).run := by
      rw [resolveList_eq]
      exact .except_mapM_of_mem ih
    rw [resolve]
    infer_instance

instance grows_resolveList (r : Registry) (scope : Scope) (es : List TypeExpr) :
    Grows (r.resolveList scope es).run := by
  rw [resolveList_eq]
  infer_instance

instance grows_resolveElements (r : Registry) (scope : Scope) (es : List (Element TypeExpr)) :
    Grows (r.resolveElements scope es).run := by
  rw [resolveElements_eq]
  infer_instance

instance grows_resolveInstance (r : Registry) (scope : Scope) (e : TypeExpr) :
    Grows (r.resolveInstance scope e).run := by
  cases e with
  | name head args => exact grows_resolveApplied r scope head args.length _
  | tuple elements => exact .except_throw _
  | union members => exact .except_throw _

omit [Digest TypeData] in
instance grows_resolving {α : Type} (meaning : TypeExpr → Resolving α) [∀ e, Grows (meaning e).run]
    (source : String) : Grows (resolving meaning source).run := by
  unfold resolving
  split
  · infer_instance
  · infer_instance

/-! ## Registries with the same names -/

/-- The registries give counterparts to the same names, with counterparts of parameters. -/
structure Corresponds (ρ : Renaming) (r r' : Registry) : Prop where
  lookup : ∀ name, Option.Rel ρ.cls (r.lookup name) (r'.lookup name)
  params : ∀ c c', ρ.cls c c' → List.Forall₂ ρ.param (r.params c) (r'.params c')

omit [Digest TypeData] in
/-- A name stands for counterparts, or for a class in neither. -/
theorem Corresponds.sameOutcome_named (hr : Corresponds ρ r r') (name : String) :
    SameOutcome ρ.cls (r.named name) (r'.named name) := by
  unfold named
  rcases rel_cases (hr.lookup name) with ⟨hc, hc'⟩ | ⟨c, c', hc, hc', hcc'⟩
  · rw [hc, hc']
    exact .error _
  · rw [hc, hc']
    exact .ok hcc'

end Registry

/-- Names related by `S` stand for counterparts in the scopes, and outside of them they are the
same. -/
structure Scope.Renamed (ρ : Renaming) (S : String → String → Prop) (scope scope' : Scope) :
    Prop where
  find : ∀ w w', S w w' → Option.Rel ρ.param (scope.find w) (scope'.find w')
  others : ∀ w w', S w w' → scope.find w = none → w' = w

namespace Registry

variable {ρ : Renaming} {t t' : Interner} {r r' : Registry} {scope scope' : Scope}

section Resolving

variable {S : String → String → Prop} (h : Abreast ρ t t') (hr : Corresponds ρ r r')
  (hscope : Scope.Renamed ρ S scope scope')

include hscope hr

theorem inStep_resolveApplied {w w' : String} (hw : S w w') (count : Nat)
    {args args' : Resolving (List TypeId)} [Grows args.run] [Grows args'.run]
    (hargs : InStepExcept (ResolveError.Reworded S) t t' (List.Forall₂ (Same ρ t t')) args args') :
    InStepExcept (ResolveError.Reworded S) t t' (SameInstance ρ t t')
      (r.resolveApplied scope w count args) (r'.resolveApplied scope' w' count args') := by
  rcases rel_cases (hscope.find w w' hw) with ⟨hfind, hfind'⟩ | ⟨p, p', hfind, hfind', -⟩
  · obtain rfl := hscope.others w w' hw hfind
    rcases rel_cases (hr.lookup w') with ⟨hc, hc'⟩ | ⟨c, c', hc, hc', hcc'⟩
    · rw [resolveApplied_of_unknown hfind hc, resolveApplied_of_unknown hfind' hc']
      exact .throw (.same _)
    · rw [resolveApplied_of_class hfind hc, resolveApplied_of_class hfind' hc',
        (hr.params c c' hcc').length_eq]
      split
      · -- a generic class without arguments
        refine .lift (inStep_apply hcc' (List.forall₂_iff_get.mpr ⟨rfl, fun n _ _ => ?_⟩))
        rw [List.get_eq_getElem, List.getElem_replicate]
        exact .leaf (TypeId.isIntrinsic_any .unannotated)
      · split
        · exact .throw (.same _)
        · exact hargs.bind fun ids ids' hids => .lift (inStep_apply hcc' hids)
  · rw [resolveApplied_of_param (by rw [hfind]; rfl), resolveApplied_of_param (by rw [hfind']; rfl)]
    exact .throw (.notAClass hw)

include h

omit hr in
/-- A name means a parameter, `Any` or `Never` in both scopes or in neither. -/
theorem resolvePlain_cases {w w' : String} (hw : S w w') :
    resolvePlain scope w = none ∧ resolvePlain scope' w' = none ∨
      ∃ plain plain', resolvePlain scope w = some plain ∧
        resolvePlain scope' w' = some plain' ∧ InStep t t' (Same ρ t t') plain plain' := by
  unfold resolvePlain
  rcases rel_cases (hscope.find w w' hw) with ⟨hfind, hfind'⟩ | ⟨p, p', hfind, hfind', hp⟩
  · obtain rfl := hscope.others w w' hw hfind
    rw [hfind, hfind']
    dsimp only
    split
    · exact .inr ⟨_, _, rfl, rfl, .pure (.leaf rfl)⟩
    · split
      · exact .inr ⟨_, _, rfl, rfl, .pure (.leaf rfl)⟩
      · exact .inl ⟨rfl, rfl⟩
  · rw [hfind, hfind']
    exact .inr ⟨_, _, rfl, rfl, h.inStep_param hp⟩

omit h hr hscope in
theorem inStep_resolveList_of {E : ResolveError → ResolveError → Prop} {es es' : List TypeExpr}
    (hes : List.Forall₂ (fun e e' =>
      InStepExcept E t t' (Same ρ t t') (r.resolve scope e) (r'.resolve scope' e')) es es') :
    InStepExcept E t t' (List.Forall₂ (Same ρ t t')) (r.resolveList scope es)
      (r'.resolveList scope' es') := by
  rw [resolveList_eq, resolveList_eq]
  exact .mapM hes fun _ _ => id

omit h hr hscope in
theorem inStep_resolveElements_of {E : ResolveError → ResolveError → Prop}
    {es es' : List (Element TypeExpr)}
    (hitems : List.Forall₂ (fun e e' =>
      InStepExcept E t t' (Same ρ t t') (r.resolve scope e) (r'.resolve scope' e'))
      (es.map Element.item) (es'.map Element.item))
    (hrests : es.map Element.isRest = es'.map Element.isRest) :
    InStepExcept E t t' (List.Forall₂ (SameElement ρ t t')) (r.resolveElements scope es)
      (r'.resolveElements scope' es') := by
  rw [resolveElements_eq, resolveElements_eq]
  rw [List.forall₂_map_left_iff, List.forall₂_map_right_iff] at hitems
  refine .mapM (R := fun e e' => InStepExcept E t t' (Same ρ t t') (r.resolve scope e.item)
    (r'.resolve scope' e'.item) ∧ e.isRest = e'.isRest) ?_ ?_
  · induction hitems with
    | nil => exact .nil
    | cons hitem _ ih =>
      obtain ⟨hrest, hrests⟩ := List.cons.inj hrests
      exact .cons ⟨hitem, hrest⟩ (ih hrests)
  · rintro e e' ⟨hitem, hrest⟩
    exact hitem.bind fun item item' hsame => .pure ⟨hrest, hsame⟩

/-- Expressions that differ in names only denote the same type. -/
theorem inStep_resolve {e e' : TypeExpr} (hsame : TypeExpr.Respelled S e e') :
    InStepExcept (ResolveError.Reworded S) t t' (Same ρ t t') (r.resolve scope e)
      (r'.resolve scope' e') := by
  induction e using TypeExpr.induct generalizing e' with
  | name w args ih =>
    obtain @⟨_, w', _, args', hw, hargs⟩ := hsame
    -- a name that is no plain type on either side
    have happlied : (args = [] → resolvePlain scope w = none ∧ resolvePlain scope' w' = none) →
        InStepExcept (ResolveError.Reworded S) t t' (Same ρ t t') (r.resolve scope (.name w args))
          (r'.resolve scope' (.name w' args')) := by
      intro hplain
      have hnil : args' = [] → args = [] := by
        rintro rfl
        exact List.forall₂_nil_right_iff.mp hargs
      rw [resolve_applied fun h => (hplain h).1, resolve_applied fun h => (hplain (hnil h)).2,
        ← hargs.length_eq]
      exact (inStep_resolveApplied hr hscope hw args.length (inStep_resolveList_of
        (forall₂_imp_mem hargs fun a ha a' _ haa' => ih a ha haa'))).bind
        fun i i' hi => .lift (h.inStep_inst hi)
    -- with arguments it cannot be one; without, both sides agree on it
    cases hargs with
    | cons ha hargs => exact happlied (by simp)
    | nil =>
      rcases resolvePlain_cases h hscope hw with hplain | ⟨plain, plain', hplain, hplain', hsame⟩
      · exact happlied fun _ => hplain
      · have := grows_resolvePlain hplain
        have := grows_resolvePlain hplain'
        rw [resolve_plain hplain, resolve_plain hplain']
        exact .lift hsame
  -- elements and members one by one, then the same tuple or union
  | tuple elements ih =>
    obtain _ | ⟨hitems, hrests⟩ := hsame
    rw [resolve, resolve]
    refine (inStep_resolveElements_of ?_ hrests).bind fun es es' hes => .lift (h.inStep_tuple hes)
    refine forall₂_imp_mem hitems fun a ha a' _ haa' => ?_
    obtain ⟨e, he, rfl⟩ := List.mem_map.mp ha
    exact ih e he haa'
  | union members ih =>
    obtain _ | _ | ⟨hms⟩ := hsame
    rw [resolve, resolve]
    refine (inStep_resolveList_of ?_).bind fun ids ids' hids =>
      .lift (h.inStep_union (.of_forall₂ hids))
    exact forall₂_imp_mem hms fun m hm m' _ hmm' => ih m hm hmm'

/-- They denote the same instance. -/
theorem inStep_resolveInstance {e e' : TypeExpr} (hsame : TypeExpr.Respelled S e e') :
    InStepExcept (ResolveError.Reworded S) t t' (SameInstance ρ t t') (r.resolveInstance scope e)
      (r'.resolveInstance scope' e') := by
  cases hsame with
  | name hw hargs =>
    rw [resolveInstance, resolveInstance, ← hargs.length_eq]
    exact inStep_resolveApplied hr hscope hw _
      (inStep_resolveList_of (hargs.imp fun a a' ha => inStep_resolve h hr hscope ha))
  | tuple => exact .throw (.same _)
  | union => exact .throw (.same _)

/-- They denote the same tuple. -/
theorem inStep_resolveTuple {e e' : TypeExpr} (hsame : TypeExpr.Respelled S e e') :
    InStepExcept (ResolveError.Reworded S) t t' (List.Forall₂ (SameElement ρ t t'))
      (r.resolveTuple scope e) (r'.resolveTuple scope' e') := by
  cases hsame with
  | name => exact .throw (.same _)
  | tuple hitems hrests =>
    exact inStep_resolveElements_of (hitems.imp fun a a' ha => inStep_resolve h hr hscope ha) hrests
  | union => exact .throw (.same _)

end Resolving

/-- Without parameters in scope a text denotes the same instance, or none for the same reason. -/
theorem inStep_subject (h : Abreast ρ t t') (hr : Corresponds ρ r r') (source : String) :
    InStep t t' (SameOutcome (SameInstance ρ t t'))
      (resolving (r.resolveInstance []) source).run
      (resolving (r'.resolveInstance []) source).run := by
  have hscope : Scope.Renamed ρ (· = ·) [] [] := ⟨fun _ _ _ => .none, fun _ _ hw _ => hw.symm⟩
  unfold resolving
  cases TypeExpr.parse source with
  | error e => exact .pure (.error _)
  | ok e =>
    intro a a' ha ha'
    cases inStep_resolveInstance h hr hscope (.refl (fun _ => rfl) e) a a' ha ha' with
    | ok hsame => exact .ok hsame
    | error herror =>
      rcases herror with ⟨rfl⟩ | e
      · exact .error _
      · exact .error _

end Registry

end Supertypes
