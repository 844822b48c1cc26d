import Supertypes.Proofs.BuildingInStep

/-!
# Expanding types in step

- `Substitution.Corresponds`: substitutions that bind counterparts of parameters to the same
  types.
- `Substitution.inStep_expand`: expanding the same type through both, the same levels deep,
  yields the same type. `Substitution.inStep_applyInstance` and
  `Substitution.inStep_applyElements` say so of instances and of tuples.
-/

namespace Supertypes

/-! ## Expansion only adds -/

namespace Interner.Grows

variable {σ : Type}

instance run_getThe (s : σ) : Grows ((getThe Interner : StateT σ Interning Interner).run s) :=
  ⟨Interner.le_refl⟩

instance run_set (s s' : σ) : Grows ((set s' : StateT σ Interning PUnit).run s) :=
  ⟨Interner.le_refl⟩

variable {f : TypeId → Expanding TypeId}

instance run_mapInstance [∀ a flag, Grows ((f a).run flag)] (i : Instance) (flag : Bool) :
    Grows ((Substitution.mapInstance f i).run flag) := by
  unfold Substitution.mapInstance
  infer_instance

instance run_mapElements [∀ a flag, Grows ((f a).run flag)] (es : List (Element TypeId))
    (flag : Bool) : Grows ((Substitution.mapElements f es).run flag) := by
  unfold Substitution.mapElements
  infer_instance

variable [Digest TypeData]

instance run_expand (s : Substitution) (levels : Nat) (id : TypeId) (flag : Bool) :
    Grows ((s.expand levels id).run flag) := by
  induction levels generalizing id flag with
  | zero =>
    unfold Substitution.expand
    infer_instance
  | succ levels ih =>
    cases hintrinsic : id.isIntrinsic with
    | true =>
      rw [Substitution.expand_of_intrinsic hintrinsic]
      infer_instance
    | false =>
      rw [Substitution.expand_succ hintrinsic]
      refine @run_bind _ _ _ _ _ _ (fun _ => run_getThe _) fun types flag => ?_
      unfold Substitution.expandOnce
      split
      · infer_instance
      · infer_instance
      · infer_instance
      · infer_instance
      · infer_instance
      · infer_instance
      · infer_instance

instance applyType (s : Substitution) (id : TypeId) : Grows (s.apply id) := by
  unfold Substitution.apply
  infer_instance

instance applyInstance (s : Substitution) (i : Instance) : Grows (s.applyInstance i) := by
  unfold Substitution.applyInstance
  infer_instance

instance applyElements (s : Substitution) (es : List (Element TypeId)) :
    Grows (s.applyElements es) := by
  unfold Substitution.applyElements
  infer_instance

end Interner.Grows

namespace Substitution

open Interner

variable {ρ : Renaming} {t t' : Interner} {s s' : Substitution} {x x' : TypeId}

/-! ## Bindings -/

/-- The substitutions bind counterparts to the same types. -/
structure Corresponds [Digest TypeData] (ρ : Renaming) (t t' : Interner) (s s' : Substitution) :
    Prop where
  isEmpty_eq : s.isEmpty = s'.isEmpty
  get? : ∀ p p', ρ.param p p' → Option.Rel (Same ρ t t') (s.get? p.id) (s'.get? p'.id)

theorem isEmpty_ofList (bindings : List (ParamId × TypeId)) :
    (ofList bindings).isEmpty = bindings.isEmpty := by
  rw [Bool.eq_iff_iff]
  constructor
  · intro hempty
    cases bindings with
    | nil => rfl
    | cons binding rest =>
      -- a parameter that is bound is found
      have hnone := get?_of_isEmpty hempty binding.1
      rw [get?_ofList, Option.map_eq_none_iff, List.find?_eq_none] at hnone
      have hmem : binding ∈ (binding :: rest).reverse :=
        List.mem_reverse.mpr List.mem_cons_self
      exact absurd (decide_eq_true rfl) (hnone binding hmem)
  · intro hempty
    rw [List.isEmpty_iff.mp hempty]
    rfl

/-- Parameters in step, bound to arguments in step. -/
theorem rel_get?_ofArgs {R : TypeId → TypeId → Prop} {S : Param → Param → Prop}
    {params params' : List Param} (hparams : List.Forall₂ S params params')
    {args args' : List TypeId} (hargs : List.Forall₂ R args args') {p p' : ParamId}
    (hp : ∀ q q', S q q' → (q.id = p ↔ q'.id = p')) :
    Option.Rel R ((ofArgs params args).get? p) ((ofArgs params' args').get? p') := by
  have hzip : List.Forall₂ (fun b b' => (b.1 = p ↔ b'.1 = p') ∧ R b.2 b'.2)
      ((params.map Param.id).zip args) ((params'.map Param.id).zip args') := by
    induction hparams generalizing args args' with
    | nil => exact .nil
    | cons hq _ ih =>
      cases hargs with
      | nil => exact .nil
      | cons ha hargs => exact .cons ⟨hp _ _ hq, ha⟩ (ih hargs)
  unfold ofArgs
  rw [get?_ofList, get?_ofList]
  refine rel_map (fun _ _ hb => hb.2) (rel_find? (List.rel_reverse hzip) ?_)
  exact fun b b' hb => decide_eq_decide.mpr hb.1

theorem isEmpty_ofArgs {params : List Param} {args : List TypeId} :
    (ofArgs params args).isEmpty = (params.isEmpty || args.isEmpty) := by
  unfold ofArgs
  rw [isEmpty_ofList]
  cases params with
  | nil => rfl
  | cons p params =>
    cases args with
    | nil => rfl
    | cons a args => rfl

variable [Digest TypeData]

/-- Counterparts of all parameters, bound to the same arguments in order. -/
theorem corresponds_ofArgs (hρ : ρ.OneToOne) {params params' : List Param}
    (hparams : List.Forall₂ ρ.param params params') {args args' : List TypeId}
    (hargs : List.Forall₂ (Same ρ t t') args args') :
    Corresponds ρ t t' (ofArgs params args) (ofArgs params' args') where
  isEmpty_eq := by
    rw [isEmpty_ofArgs, isEmpty_ofArgs]
    cases hparams with
    | nil => rfl
    | cons => cases hargs <;> rfl
  get? p p' hp := rel_get?_ofArgs hparams hargs fun q q' hq => hρ.id hq hp

/-! ## Expansion -/

section Expansion

variable (h : Abreast ρ t t')

include h

theorem inStep_mapInstance {f f' : TypeId → Expanding TypeId}
    [∀ a flag, Grows ((f a).run flag)] [∀ a flag, Grows ((f' a).run flag)]
    (hf : ∀ a a', Same ρ t t' a a' → InStepWith t t' (Same ρ t t') (f a) (f' a'))
    {i i' : Instance} (hi : SameInstance ρ t t' i i') :
    InStepWith t t' (SameInstance ρ t t') (mapInstance f i) (mapInstance f' i') := by
  unfold mapInstance
  refine .readThe ?_
  dsimp only
  refine (InStepWith.mapM hi.args hf).bind fun expanded expanded' hexpanded => ?_
  have heq : expanded = t.args i ↔ expanded' = t'.args i' :=
    eq_iff_of_forall₂ (fun hx hy => hx.eq_iff h.oneToOne h.wellFormed h.wellFormed' hy) hexpanded
      hi.args
  by_cases hsame : expanded = t.args i
  · rw [if_pos hsame, if_pos (heq.mp hsame)]
    exact .pure hi
  · rw [if_neg hsame, if_neg (mt heq.mpr hsame)]
    exact .lift (inStep_apply hi.head hexpanded)

omit h in
theorem inStep_mapElements {f f' : TypeId → Expanding TypeId}
    [∀ a flag, Grows ((f a).run flag)] [∀ a flag, Grows ((f' a).run flag)]
    (hf : ∀ a a', Same ρ t t' a a' → InStepWith t t' (Same ρ t t') (f a) (f' a'))
    {es es' : List (Element TypeId)} (hes : List.Forall₂ (SameElement ρ t t') es es') :
    InStepWith t t' (List.Forall₂ (SameElement ρ t t')) (mapElements f es)
      (mapElements f' es') := by
  unfold mapElements
  refine .mapM hes fun e e' he => ?_
  exact (hf _ _ he.2).bind fun item item' hitem => .pure ⟨he.1, hitem⟩

/-- Expanding the members of the same union, in whatever order they come. -/
theorem inStep_members {f f' : TypeId → Expanding TypeId}
    [∀ a flag, Grows ((f a).run flag)] [∀ a flag, Grows ((f' a).run flag)]
    (hf : ∀ a a', Same ρ t t' a a' → InStepWith t t' (Same ρ t t') (f a) (f' a'))
    {ms ms' : List TypeId} (hms : SameMembers ρ t t' ms ms') :
    InStepWith t t' (fun rs rs' => SameMembers ρ t t' rs rs' ∧ (rs = ms ↔ rs' = ms'))
      (ms.mapM f) (ms'.mapM f') := by
  intro flag flag' r r' hr hr'
  have hrs := hr.mapM_run
  have hrs' := hr'.mapM_run
  -- what the counterparts of a member come to
  have hsame : ∀ {m a m' a'}, (∃ s s', t.Finds ((f m).run s) (a, s')) →
      (∃ s s', t'.Finds ((f' m').run s) (a', s')) → Same ρ t t' m m' → Same ρ t t' a a' := by
    rintro m a m' a' ⟨s, _, ha⟩ ⟨s', _, ha'⟩ hm
    exact hf m m' hm s s' _ _ ha ha'
  refine ⟨⟨fun a ha => ?_, fun a' ha' => ?_⟩, ?_⟩
  · obtain ⟨m, hm, hfound⟩ := exists_of_mem_right hrs ha
    obtain ⟨m', hm', hmm'⟩ := hms.1 m hm
    obtain ⟨a', ha', hfound'⟩ := exists_of_mem_left hrs' hm'
    exact ⟨a', ha', hsame hfound hfound' hmm'⟩
  · obtain ⟨m', hm', hfound'⟩ := exists_of_mem_right hrs' ha'
    obtain ⟨m, hm, hmm'⟩ := hms.2 m' hm'
    obtain ⟨a, ha, hfound⟩ := exists_of_mem_left hrs hm
    exact ⟨a, ha, hsame hfound hfound' hmm'⟩
  · -- a member is kept just if its counterpart is
    have hkept : ∀ {m a m' a'}, (∃ s s', t.Finds ((f m).run s) (a, s')) →
        (∃ s s', t'.Finds ((f' m').run s) (a', s')) → Same ρ t t' m m' → (a = m ↔ a' = m') :=
      fun hfound hfound' hm => (hsame hfound hfound' hm).eq_iff h.oneToOne h.wellFormed
        h.wellFormed' hm
    constructor
    · intro heq
      rw [heq] at hrs
      refine (List.forall₂_eq_eq_eq ▸ forall₂_imp_mem hrs' ?_ : ms' = r'.1).symm
      intro m' hm' a' _ hfound'
      obtain ⟨m, hm, hmm'⟩ := hms.2 m' hm'
      exact ((hkept (List.forall₂_same.mp hrs m hm) hfound' hmm').mp rfl).symm
    · intro heq
      rw [heq] at hrs'
      refine (List.forall₂_eq_eq_eq ▸ forall₂_imp_mem hrs ?_ : ms = r.1).symm
      intro m hm a _ hfound
      obtain ⟨m', hm', hmm'⟩ := hms.1 m hm
      exact ((hkept hfound (List.forall₂_same.mp hrs' m' hm') hmm').mpr rfl).symm

/-- Expanding the same type: either both change, or both keep their handles. -/
theorem inStep_expand (hs : Corresponds ρ t t' s s') (levels : Nat) (hx : Same ρ t t' x x') :
    InStepWith t t' (Same ρ t t') (s.expand levels x) (s'.expand levels x') := by
  induction levels generalizing x x' with
  | zero =>
    unfold expand
    rw [h.isIntrinsic_eq hx]
    split
    · exact .pure hx
    · exact fun _ _ => .pure (.leaf rfl)
  | succ levels ih =>
    have hintrinsic := h.isIntrinsic_eq hx
    rcases (same_iff h.wellFormed h.wellFormed').mp hx with
      -- what needs no table is expanded to itself, on either side
      ⟨hleaf, rfl⟩ | ⟨data, data', hdata, hdata', hsame⟩
    · rw [expand_of_intrinsic hleaf, expand_of_intrinsic hleaf]
      exact .pure hx
    have huser := not_intrinsic_of_data hdata hsame
    rw [huser] at hintrinsic
    rw [expand_succ huser, expand_succ hintrinsic.symm]
    refine .readThe ?_
    cases hsame with
    | @param p p' hp =>
      rw [expandOnce_param hdata, expandOnce_param hdata']
      exact .pure (rel_getD (hs.get? p p' hp) hx)
    -- unchanged on one side just if unchanged on the other, for counterparts are unique
    | @inst i i' hi =>
      rw [expandOnce_inst hdata, expandOnce_inst hdata']
      refine (inStep_mapInstance h (fun _ _ => ih) hi).bind fun j j' hj => ?_
      have heq := hj.eq_iff h.oneToOne h.wellFormed h.wellFormed' hi
      by_cases hsame : j = i
      · rw [if_pos hsame, if_pos (heq.mp hsame)]
        exact .pure hx
      · rw [if_neg hsame, if_neg (mt heq.mpr hsame)]
        exact .lift (h.inStep_inst hj)
    | @tuple list list' hes =>
      rw [expandOnce_tuple hdata, expandOnce_tuple hdata']
      refine (inStep_mapElements (fun _ _ => ih) hes).bind fun ds ds' hds => ?_
      have heq : ds = t.elementList list ↔ ds' = t'.elementList list' := eq_iff_of_forall₂
        (fun hx hy => hx.eq_iff h.oneToOne h.wellFormed h.wellFormed' hy) hds hes
      by_cases hsame : ds = t.elementList list
      · rw [if_pos hsame, if_pos (heq.mp hsame)]
        exact .pure hx
      · rw [if_neg hsame, if_neg (mt heq.mpr hsame)]
        exact .lift (h.inStep_tuple hds)
    | @union list list' hnormal hnormal' hms =>
      rw [expandOnce_union hdata, expandOnce_union hdata']
      -- the members may come in another order, so they are compared as sets
      refine (inStep_members h (fun _ _ => ih) hms).bind fun rs rs' ⟨hrs, heq⟩ => ?_
      by_cases hsame : rs = t.typeList list
      · rw [if_pos hsame, if_pos (heq.mp hsame)]
        exact .pure hx
      · rw [if_neg hsame, if_neg (mt heq.mpr hsame)]
        exact .lift (h.inStep_union hrs)

/-- Expanding the arguments of the same instance. -/
theorem inStep_applyInstance (hs : Corresponds ρ t t' s s') {i i' : Instance}
    (hi : SameInstance ρ t t' i i') :
    InStep t t' (SameInstance ρ t t') (s.applyInstance i) (s'.applyInstance i') := by
  unfold applyInstance
  rw [hs.isEmpty_eq]
  split
  · exact .pure hi
  · exact (inStep_mapInstance h (fun _ _ => inStep_expand h hs _) hi).drop false false

/-- Expanding the items of the same tuple. -/
theorem inStep_applyElements (hs : Corresponds ρ t t' s s') {es es' : List (Element TypeId)}
    (hes : List.Forall₂ (SameElement ρ t t') es es') :
    InStep t t' (List.Forall₂ (SameElement ρ t t')) (s.applyElements es)
      (s'.applyElements es') := by
  unfold applyElements
  exact (inStep_mapElements (fun _ _ => inStep_expand h hs _) hes).drop false false

end Expansion

end Substitution

end Supertypes
