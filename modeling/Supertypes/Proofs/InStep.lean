import Supertypes.Proofs.Meaning

/-!
# Two runs in step

Two actions that intern types, each looked at in tables in which it finds all that it needs.

- `Interner.Grows`: an action that only adds to the tables, whatever they are.
- `Interner.Finds t x a`: the action `x` answers `a` and adds nothing to `t`. By
  `Interner.Finds.of_bind` the parts of an action that only grow the tables find what they need
  too.
- `Interner.InStep t t' R x x'`: what `x` finds in `t` and what `x'` finds in `t'` are related by
  `R`. `Interner.InStepWith` says the same of actions with a state of their own, and
  `Interner.InStepExcept` of actions that may fail. Each comes with a rule for sequences and one
  for loops.
-/

namespace Supertypes.Interner

variable {α α' β β' ε σ σ' : Type} {t t' : Interner}

/-- Tables that extend each other are the same. -/
protected theorem le_antisymm (h : t ≤ t') (h' : t' ≤ t) : t = t' := by
  obtain ⟨⟨types⟩, ⟨lists⟩, ⟨elements⟩⟩ := t
  obtain ⟨⟨types'⟩, ⟨lists'⟩, ⟨elements'⟩⟩ := t'
  have htypes : types = types' := h.1.eq_of_length_le h'.1.length_le
  have hlists : lists = lists' := h.2.1.eq_of_length_le h'.2.1.length_le
  have helements : elements = elements' := h.2.2.eq_of_length_le h'.2.2.length_le
  rw [htypes, hlists, helements]

/-! ## Actions that only add -/

/-- The action only adds to the tables. -/
class Grows (x : Interning α) : Prop where
  le_run (t : Interner) : t ≤ (x.run t).2

namespace Grows

instance pure (a : α) : Grows (Pure.pure a : Interning α) :=
  ⟨Interner.le_refl⟩

instance get : Grows (MonadState.get : Interning Interner) :=
  ⟨Interner.le_refl⟩

instance bind (x : Interning α) (f : α → Interning β) [hx : Grows x] [hf : ∀ a, Grows (f a)] :
    Grows (x >>= f) :=
  ⟨fun t => Interner.le_trans (hx.le_run t) ((hf _).le_run _)⟩

/-- What comes next keeps what has been added. -/
theorem run_le_bind (x : Interning α) (f : α → Interning β) [hf : ∀ a, Grows (f a)]
    (t : Interner) : (x.run t).2 ≤ ((x >>= f).run t).2 :=
  (hf _).le_run _

instance map (f : α → β) (x : Interning α) [Grows x] : Grows (f <$> x) := by
  rw [map_eq_pure_bind]
  infer_instance

/-- A loop adds to the tables only if its steps do, and it is enough to know this of the
members. -/
theorem mapM_of_mem {f : α → Interning β} {xs : List α} (h : ∀ a ∈ xs, Grows (f a)) :
    Grows (xs.mapM f) := by
  induction xs with
  | nil => exact .pure []
  | cons a xs ih =>
    have := h a List.mem_cons_self
    have := ih fun b hb => h b (List.mem_cons_of_mem _ hb)
    rw [List.mapM_cons]
    infer_instance

instance mapM (f : α → Interning β) [∀ a, Grows (f a)] (xs : List α) : Grows (xs.mapM f) :=
  mapM_of_mem fun _ _ => inferInstance

instance foldlM (f : β → α → Interning β) [∀ b a, Grows (f b a)] (xs : List α) (b : β) :
    Grows (xs.foldlM f b) := by
  induction xs generalizing b with
  | nil => exact .pure b
  | cons a xs ih =>
    rw [List.foldlM_cons]
    infer_instance

instance ite (c : Prop) [Decidable c] (x y : Interning α) [hx : Grows x] [hy : Grows y] :
    Grows (if c then x else y) := by
  split
  · exact hx
  · exact hy

/-! ### With a state of their own -/

instance run_pure (a : α) (s : σ) : Grows ((Pure.pure a : StateT σ Interning α).run s) :=
  .pure (a, s)

instance run_lift (x : Interning α) [Grows x] (s : σ) :
    Grows ((monadLift x : StateT σ Interning α).run s) := by
  rw [StateT.run_monadLift]
  infer_instance

instance run_bind (x : StateT σ Interning α) (f : α → StateT σ Interning β) (s : σ)
    [∀ s, Grows (x.run s)] [∀ a s, Grows ((f a).run s)] : Grows ((x >>= f).run s) := by
  rw [StateT.run_bind]
  infer_instance

instance run_ite (c : Prop) [Decidable c] (x y : StateT σ Interning α) (s : σ)
    [hx : Grows (x.run s)] [hy : Grows (y.run s)] : Grows ((if c then x else y).run s) := by
  split
  · exact hx
  · exact hy

instance run_mapM (f : α → StateT σ Interning β) [∀ a s, Grows ((f a).run s)] (xs : List α)
    (s : σ) : Grows ((xs.mapM f).run s) := by
  induction xs generalizing s with
  | nil => exact .pure ([], s)
  | cons a xs ih =>
    rw [List.mapM_cons]
    infer_instance

/-! ### With failures -/

instance except_pure (a : α) : Grows (Pure.pure a : ExceptT ε Interning α).run :=
  pure (Except.ok a)

instance except_throw (e : ε) : Grows (throw e : ExceptT ε Interning α).run :=
  pure (Except.error e)

instance except_lift (x : Interning α) [Grows x] :
    Grows (ExceptT.lift x : ExceptT ε Interning α).run :=
  inferInstanceAs (Grows (Except.ok <$> x))

instance except_bind (x : ExceptT ε Interning α) (f : α → ExceptT ε Interning β)
    [hx : Grows x.run] [hf : ∀ a, Grows (f a).run] : Grows (x >>= f).run := by
  rw [ExceptT.run_bind]
  refine @bind _ _ _ _ hx ?_
  rintro (e | a)
  · exact pure (Except.error e)
  · exact hf a

theorem except_mapM_of_mem {f : α → ExceptT ε Interning β} {xs : List α}
    (h : ∀ a ∈ xs, Grows (f a).run) :
    Grows (xs.mapM f).run := by
  induction xs with
  | nil => exact .pure _
  | cons a xs ih =>
    have := h a List.mem_cons_self
    have := ih fun b hb => h b (List.mem_cons_of_mem _ hb)
    rw [List.mapM_cons]
    infer_instance

instance except_mapM (f : α → ExceptT ε Interning β) [∀ a, Grows (f a).run] (xs : List α) :
    Grows (xs.mapM f).run :=
  except_mapM_of_mem fun _ _ => inferInstance

end Grows

/-! ## What an action finds -/

/-- The action answers `a` and adds nothing, for all that it needs is in the tables. -/
def Finds (t : Interner) (x : Interning α) (a : α) : Prop :=
  x.run t = (a, t)

theorem Settled.finds [Digest TypeData] {x : Interning α} {a : α} (h : Settled t x a)
    (hwf : t.WellFormed) : t.Finds x a :=
  h t t.le_refl hwf

namespace Finds

theorem of_pure {a b : α} (h : t.Finds (pure a) b) : b = a :=
  (congrArg Prod.fst h).symm

/-- There is one thing at most that an action finds. -/
theorem unique {x : Interning α} {a b : α} (h : t.Finds x a) (h' : t.Finds x b) : a = b :=
  congrArg Prod.fst (h.symm.trans h')

/-- What a repeatable action finds is settled. -/
theorem settled [Digest TypeData] {x : Interning α} {a : α} {P : α → Interner → Prop}
    (h : t.Finds x a) (hx : Repeatable t x P) : Settled t x a :=
  (hx.of_run h).2.2.1

/-- What a repeatable action finds satisfies what is known of its answers. -/
theorem post [Digest TypeData] {x : Interning α} {a : α} {P : α → Interner → Prop} (h : t.Finds x a)
    (hx : Repeatable t x P) : P a t :=
  (hx.of_run h).2.2.2

/-- What is done first adds nothing, for what is done next takes nothing away. -/
theorem of_bind {x : Interning α} {f : α → Interning β} {b : β} [hx : Grows x]
    [hf : ∀ a, Grows (f a)] (h : t.Finds (x >>= f) b) : ∃ a, t.Finds x a ∧ t.Finds (f a) b := by
  have hrun : (f (x.run t).1).run (x.run t).2 = (b, t) := h
  have hback := (hf (x.run t).1).le_run (x.run t).2
  rw [hrun] at hback
  have hsame : (x.run t).2 = t := Interner.le_antisymm hback (hx.le_run t)
  rw [hsame] at hrun
  exact ⟨(x.run t).1, Prod.ext rfl hsame, hrun⟩

/-- What is done for each entry of a list is found for each. -/
theorem mapM_run {f : α → StateT σ Interning β} [∀ a s, Grows ((f a).run s)] {xs : List α} {s : σ}
    {r : List β × σ} (h : t.Finds ((xs.mapM f).run s) r) :
    List.Forall₂ (fun x y => ∃ s s', t.Finds ((f x).run s) (y, s')) xs r.1 := by
  induction xs generalizing s r with
  | nil =>
    rw [h.of_pure]
    exact .nil
  | cons x xs ih =>
    rw [List.mapM_cons, StateT.run_bind] at h
    obtain ⟨⟨y, s₁⟩, hy, h⟩ := h.of_bind
    rw [StateT.run_bind] at h
    obtain ⟨⟨ys, s₂⟩, hys, h⟩ := h.of_bind
    rw [h.of_pure]
    exact .cons ⟨s, s₁, hy⟩ (ih hys)

/-- A loop finds what its steps find, one by one. -/
theorem mapM {f : α → Interning β} [∀ a, Grows (f a)] {xs : List α} {ys : List β}
    (h : t.Finds (xs.mapM f) ys) : List.Forall₂ (fun x y => t.Finds (f x) y) xs ys := by
  induction xs generalizing ys with
  | nil =>
    rw [h.of_pure]
    exact .nil
  | cons x xs ih =>
    rw [List.mapM_cons] at h
    obtain ⟨y, hy, h⟩ := h.of_bind
    obtain ⟨ys', hys, h⟩ := h.of_bind
    rw [h.of_pure]
    exact .cons hy (ih hys)

/-- What is read is what is there. -/
theorem of_read {k : Interner → Interning α} {a : α} (h : t.Finds (get >>= k) a) :
    t.Finds (k t) a :=
  h

end Finds

/-! ## Two actions in step -/

/-- What the one action finds in `t` and what the other finds in `t'` are related by `R`. -/
def InStep (t t' : Interner) (R : α → α' → Prop) (x : Interning α) (x' : Interning α') : Prop :=
  ∀ a a', t.Finds x a → t'.Finds x' a' → R a a'

namespace InStep

variable {R : α → α' → Prop} {S : β → β' → Prop} {x : Interning α}
  {x' : Interning α'}

theorem pure {a : α} {a' : α'} (h : R a a') :
    InStep t t' R (Pure.pure a : Interning α) (Pure.pure a' : Interning α') := by
  intro b b' hb hb'
  rw [hb.of_pure, hb'.of_pure]
  exact h

/-- Two sequences are in step if their first parts are and their second parts are for related
answers. -/
theorem bind {f : α → Interning β} {f' : α' → Interning β'} [Grows x] [Grows x']
    [∀ a, Grows (f a)] [∀ a, Grows (f' a)] (hx : InStep t t' R x x')
    (hf : ∀ a a', R a a' → InStep t t' S (f a) (f' a')) :
    InStep t t' S (x >>= f) (x' >>= f') := by
  intro b b' hb hb'
  obtain ⟨a, ha, hb⟩ := hb.of_bind
  obtain ⟨a', ha', hb'⟩ := hb'.of_bind
  exact hf a a' (hx a a' ha ha') b b' hb hb'

/-- The same where it takes a case analysis to see that what is done next only adds. -/
theorem bind_of_grows {f : α → Interning β} {f' : α' → Interning β'} [Grows x] [Grows x']
    (hadd : ∀ a, Grows (f a)) (hadd' : ∀ a, Grows (f' a)) (hx : InStep t t' R x x')
    (hf : ∀ a a', R a a' → InStep t t' S (f a) (f' a')) :
    InStep t t' S (x >>= f) (x' >>= f') :=
  bind hx hf

/-- Both actions read the tables that they are looked at in. -/
theorem read {k : Interner → Interning α} {k' : Interner → Interning α'}
    (h : InStep t t' R (k t) (k' t')) : InStep t t' R (get >>= k) (get >>= k') :=
  h

/-- Two loops along related lists are in step. -/
theorem mapM {xs : List α} {xs' : List α'} {f : α → Interning β} {f' : α' → Interning β'}
    [∀ a, Grows (f a)] [∀ a, Grows (f' a)] (hxs : List.Forall₂ R xs xs')
    (hf : ∀ a a', R a a' → InStep t t' S (f a) (f' a')) :
    InStep t t' (List.Forall₂ S) (xs.mapM f) (xs'.mapM f') := by
  induction hxs with
  | nil => exact .pure .nil
  | cons ha _ ih =>
    rw [List.mapM_cons, List.mapM_cons]
    exact .bind (hf _ _ ha) fun b b' hb => .bind ih fun bs bs' hbs => .pure (.cons hb hbs)

/-- Two loops that go on from related values are in step. -/
theorem foldlM {xs : List α} {xs' : List α'} {f : β → α → Interning β} {f' : β' → α' → Interning β'}
    [∀ b a, Grows (f b a)] [∀ b a, Grows (f' b a)] {b : β} {b' : β'} (hb : S b b')
    (hxs : List.Forall₂ R xs xs')
    (hf : ∀ b b' a a', S b b' → R a a' → InStep t t' S (f b a) (f' b' a')) :
    InStep t t' S (xs.foldlM f b) (xs'.foldlM f' b') := by
  induction hxs generalizing b b' with
  | nil => exact .pure hb
  | cons ha _ ih =>
    rw [List.foldlM_cons, List.foldlM_cons]
    exact .bind (hf _ _ _ _ hb ha) fun _ _ hb => ih hb

end InStep

/-! ### With a state of their own -/

/-- The same of actions with a state of their own, whatever it is. -/
def InStepWith (t t' : Interner) (R : α → α' → Prop) (x : StateT σ Interning α)
    (x' : StateT σ' Interning α') : Prop :=
  ∀ s s', InStep t t' (fun r r' => R r.1 r'.1) (x.run s) (x'.run s')

namespace InStepWith

variable {R : α → α' → Prop} {S : β → β' → Prop} {x : StateT σ Interning α}
  {x' : StateT σ' Interning α'}

theorem pure {a : α} {a' : α'} (h : R a a') :
    InStepWith t t' R (Pure.pure a : StateT σ Interning α)
      (Pure.pure a' : StateT σ' Interning α') :=
  fun _ _ => InStep.pure h

theorem lift {y : Interning α} {y' : Interning α'} [Grows y] [Grows y'] (h : InStep t t' R y y') :
    InStepWith t t' R (monadLift y : StateT σ Interning α)
      (monadLift y' : StateT σ' Interning α') := by
  intro s s'
  rw [StateT.run_monadLift, StateT.run_monadLift]
  exact h.bind fun a a' ha => .pure ha

/-- The rule for sequences. -/
theorem bind {f : α → StateT σ Interning β} {f' : α' → StateT σ' Interning β'}
    [∀ s, Grows (x.run s)] [∀ s, Grows (x'.run s)] [∀ a s, Grows ((f a).run s)]
    [∀ a s, Grows ((f' a).run s)] (hx : InStepWith t t' R x x')
    (hf : ∀ a a', R a a' → InStepWith t t' S (f a) (f' a')) :
    InStepWith t t' S (x >>= f) (x' >>= f') := by
  intro s s'
  rw [StateT.run_bind, StateT.run_bind]
  exact (hx s s').bind fun r r' hr => hf r.1 r'.1 hr r.2 r'.2

/-- Both actions read the tables that they are looked at in. -/
theorem readThe {k : Interner → StateT σ Interning α} {k' : Interner → StateT σ' Interning α'}
    (h : InStepWith t t' R (k t) (k' t')) :
    InStepWith t t' R (getThe Interner >>= k) (getThe Interner >>= k') :=
  h

/-- The rule for loops. -/
theorem mapM {xs : List α} {xs' : List α'} {f : α → StateT σ Interning β}
    {f' : α' → StateT σ' Interning β'} [∀ a s, Grows ((f a).run s)] [∀ a s, Grows ((f' a).run s)]
    (hxs : List.Forall₂ R xs xs') (hf : ∀ a a', R a a' → InStepWith t t' S (f a) (f' a')) :
    InStepWith t t' (List.Forall₂ S) (xs.mapM f) (xs'.mapM f') := by
  induction hxs with
  | nil => exact .pure .nil
  | cons ha _ ih =>
    rw [List.mapM_cons, List.mapM_cons]
    exact .bind (hf _ _ ha) fun b b' hb => .bind ih fun bs bs' hbs => .pure (.cons hb hbs)

/-- The states may be dropped at the end. -/
theorem drop [∀ s, Grows (x.run s)] [∀ s, Grows (x'.run s)] (hx : InStepWith t t' R x x') (s : σ)
    (s' : σ') : InStep t t' R (Prod.fst <$> x.run s) (Prod.fst <$> x'.run s') := by
  rw [map_eq_pure_bind, map_eq_pure_bind]
  exact (hx s s').bind fun r r' hr => .pure hr

end InStepWith

/-! ### With failures -/

/-- Both succeed with related answers, or both fail for the same reason. -/
inductive SameOutcome (R : α → α' → Prop) : Except ε α → Except ε α' → Prop
  | ok {a : α} {a' : α'} (h : R a a') : SameOutcome R (.ok a) (.ok a')
  | error (e : ε) : SameOutcome R (.error e) (.error e)

/-- Both succeed with related answers, or both fail, for reasons that are related by `E`. -/
inductive SameUpTo (E : ε → ε → Prop) (R : α → α' → Prop) : Except ε α → Except ε α' → Prop
  | ok {a : α} {a' : α'} (h : R a a') : SameUpTo E R (.ok a) (.ok a')
  | error {e e' : ε} (h : E e e') : SameUpTo E R (.error e) (.error e')

/-- The same of actions that may fail, for related reasons then. -/
def InStepExcept (E : ε → ε → Prop) (t t' : Interner) (R : α → α' → Prop)
    (x : ExceptT ε Interning α) (x' : ExceptT ε Interning α') : Prop :=
  InStep t t' (SameUpTo E R) x.run x'.run

namespace InStepExcept

variable {E : ε → ε → Prop} {R : α → α' → Prop} {S : β → β' → Prop} {x : ExceptT ε Interning α}
  {x' : ExceptT ε Interning α'}

theorem pure {a : α} {a' : α'} (h : R a a') :
    InStepExcept E t t' R (Pure.pure a : ExceptT ε Interning α)
      (Pure.pure a' : ExceptT ε Interning α') :=
  InStep.pure (.ok h)

/-- Two failures are in step, if their reasons are related. -/
theorem throw {e e' : ε} (h : E e e') :
    InStepExcept E t t' R (throw e : ExceptT ε Interning α)
      (throw e' : ExceptT ε Interning α') :=
  InStep.pure (.error h)

theorem lift {y : Interning α} {y' : Interning α'} [Grows y] [Grows y'] (h : InStep t t' R y y') :
    InStepExcept E t t' R (ExceptT.lift y : ExceptT ε Interning α)
      (ExceptT.lift y' : ExceptT ε Interning α') := by
  show InStep t t' _ (Except.ok <$> y) (Except.ok <$> y')
  rw [map_eq_pure_bind, map_eq_pure_bind]
  exact h.bind fun a a' ha => .pure (.ok ha)

/-- The rule for sequences. If the first parts fail, they do so in both or in neither. -/
theorem bind {f : α → ExceptT ε Interning β} {f' : α' → ExceptT ε Interning β'} [Grows x.run]
    [Grows x'.run] [hf : ∀ a, Grows (f a).run] [hf' : ∀ a, Grows (f' a).run]
    (hx : InStepExcept E t t' R x x')
    (h : ∀ a a', R a a' → InStepExcept E t t' S (f a) (f' a')) :
    InStepExcept E t t' S (x >>= f) (x' >>= f') := by
  unfold InStepExcept
  rw [ExceptT.run_bind, ExceptT.run_bind]
  refine @InStep.bind _ _ _ _ _ _ _ _ _ _ _ _ ‹_› ‹_› ?_ ?_ hx ?_
  · rintro (e | a)
    · exact .pure (Except.error e)
    · exact hf a
  · rintro (e | a)
    · exact .pure (Except.error e)
    · exact hf' a
  · rintro _ _ (⟨ha⟩ | ⟨he⟩)
    · exact h _ _ ha
    · exact .pure (.error he)

/-- The rule for loops, which end at the first failure. -/
theorem mapM {xs : List α} {xs' : List α'} {f : α → ExceptT ε Interning β}
    {f' : α' → ExceptT ε Interning β'} [∀ a, Grows (f a).run] [∀ a, Grows (f' a).run]
    (hxs : List.Forall₂ R xs xs') (hf : ∀ a a', R a a' → InStepExcept E t t' S (f a) (f' a')) :
    InStepExcept E t t' (List.Forall₂ S) (xs.mapM f) (xs'.mapM f') := by
  induction hxs with
  | nil => exact .pure .nil
  | cons ha _ ih =>
    rw [List.mapM_cons, List.mapM_cons]
    exact .bind (hf _ _ ha) fun b b' hb => .bind ih fun bs bs' hbs => .pure (.cons hb hbs)

end InStepExcept

end Supertypes.Interner
