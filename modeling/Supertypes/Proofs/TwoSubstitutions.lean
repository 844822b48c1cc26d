import Supertypes.Proofs.Constructed
import Supertypes.Proofs.Substituting

/-!
# Two substitutions in one

- `Substitution.followedBy`: the substitution that does what one does and then another.
  `Substitution.finds_followedBy` says what it binds.
- `Substitution.StaysAbove`: no expansion that is made on the way goes down to the limit.
- `Interner.Reached.apply_followedBy`: expanding a type through both substitutions at once
  answers the same handle as expanding it through the one and then through the other.
-/

namespace Supertypes

section

variable [Digest TypeData]

namespace Substitution

open Interner

variable {s₁ s₂ s : Substitution} {t : Interner} {id : TypeId}

/-! ## The substitution in one -/

/-- Bind each parameter of `s₁` to its value expanded through `s₂`, and every other parameter of
`s₂` to its value there. -/
def followedBy (s₁ s₂ : Substitution) : Interning Substitution := do
  let expanded ← s₁.bindings.mapM fun binding => return (binding.1, ← s₂.apply binding.2)
  return ⟨expanded ++ s₂.bindings.filter fun binding => (s₁.get? binding.1).isNone⟩

/-- Expand a type through `s₁` and then through `s₂`, and through both at once. -/
def bothWays (s₁ s₂ : Substitution) (id : TypeId) : Interning (TypeId × TypeId) := do
  let once ← s₁.apply id
  let twice ← s₂.apply once
  let s ← s₁.followedBy s₂
  let direct ← s.apply id
  return (twice, direct)

omit [Digest TypeData] in
theorem mem_of_get? {p : ParamId} {value : TypeId} (h : s.get? p = some value) :
    (p, value) ∈ s.bindings := by
  obtain ⟨binding, hbinding, rfl⟩ := Option.map_eq_some_iff.mp h
  have hp : binding.1 = p := by simpa using List.find?_some hbinding
  exact hp ▸ List.mem_of_find?_eq_some hbinding

/-- What the substitution binds that does both: in place of the value of `s₁` what it expands to,
and for all other parameters what `s₂` binds. -/
theorem finds_followedBy (h : t.Finds (s₁.followedBy s₂) s) (p : ParamId) :
    (s₁.get? p = none ∧ s.get? p = s₂.get? p) ∨
      ∃ v v', s₁.get? p = some v ∧ s.get? p = some v' ∧ t.Finds (s₂.apply v) v' := by
  obtain ⟨expanded, hexpanded, h⟩ := h.of_bind
  obtain rfl := h.of_pure
  -- the first substitution's bindings, expanded one by one
  have hsteps : List.Forall₂ (fun b b' => b'.1 = b.1 ∧ t.Finds (s₂.apply b.2) b'.2)
      s₁.bindings expanded := by
    refine hexpanded.mapM.imp fun b b' hb => ?_
    obtain ⟨value, hvalue, hb⟩ := hb.of_bind
    obtain rfl := hb.of_pure
    exact ⟨rfl, hvalue⟩
  have hrel : Option.Rel (fun v v' => t.Finds (s₂.apply v) v') (s₁.get? p)
      ((expanded.find? (·.1 = p)).map Prod.snd) :=
    rel_map (fun _ _ hb => hb.2) (rel_find? hsteps fun b b' hb => by rw [hb.1])
  -- they come first, so the second substitution decides only on what they leave open
  have hget : ∀ rest : List (ParamId × TypeId), (Substitution.mk (expanded ++ rest)).get? p =
      ((expanded.find? (·.1 = p)).map Prod.snd).or ((Substitution.mk rest).get? p) := by
    intro rest
    unfold get?
    rw [List.find?_append, Option.map_or]
  rw [hget]
  rcases rel_cases hrel with ⟨hnone, hexpanded⟩ | ⟨v, v', hv, hv', hvv'⟩
  · -- what is left of the bindings of the second substitution includes that of `p`
    refine .inl ⟨hnone, ?_⟩
    rw [hexpanded, Option.none_or, get?, List.find?_filter, get?]
    congr 2
    funext b
    by_cases hb : b.1 = p
    · simp [hb, hnone]
    · simp [hb]
  · refine .inr ⟨v, v', hv, ?_, hvv'⟩
    rw [hv', Option.some_or]

theorem isEmpty_of_finds_followedBy (h : t.Finds (s₁.followedBy s₂) s)
    (hempty₁ : s₁.isEmpty = true) (hempty₂ : s₂.isEmpty = true) : s.isEmpty = true := by
  obtain ⟨bindings₁⟩ := s₁
  obtain ⟨bindings₂⟩ := s₂
  obtain rfl := List.isEmpty_iff.mp hempty₁
  obtain rfl := List.isEmpty_iff.mp hempty₂
  have hnothing : t.Finds (pure ⟨[]⟩) s := h
  rw [hnothing.of_pure]
  rfl

theorem issued_of_bindings (h : ∀ binding ∈ s.bindings, t.Issued binding.2) : s.Issued t :=
  fun p value hvalue => h (p, value) (mem_of_get? hvalue)

/-! ## Both ways -/

/-- No expansion on the way goes down to the limit, or there is nothing to expand through: not
that of the type, not that of what it expands to, and not that of a value. -/
structure StaysAbove (s₁ s₂ : Substitution) (t : Interner) (id : TypeId) : Prop where
  first : s₁.isEmpty = true ∨ ¬ t.Deep Limits.expansion id
  second : s₂.isEmpty = true ∨
    ¬ ((s₁.apply id).run t).2.Deep Limits.expansion ((s₁.apply id).run t).1
  values : s₂.isEmpty = true ∨ ∀ binding ∈ s₁.bindings, ¬ t.Deep Limits.expansion binding.2

instance grows_followedBy (s₁ s₂ : Substitution) : Grows (s₁.followedBy s₂) := by
  unfold followedBy
  infer_instance

section Issued

variable (hwf : t.WellFormed) (hs₁ : ∀ binding ∈ s₁.bindings, t.Issued binding.2)
  (hs₂ : ∀ binding ∈ s₂.bindings, t.Issued binding.2)

include hwf hs₁ hs₂

/-- What both at once bind has been issued. -/
theorem repeatable_followedBy : Repeatable t (s₁.followedBy s₂) fun s t' => s.Issued t' := by
  have hlasting : ∀ _ : ParamId × TypeId,
      Repeatable.Lasting fun (b' : ParamId × TypeId) t' => t'.Issued b'.2 :=
    fun _ _ _ _ _ hle h => h.of_le hle
  refine (Repeatable.mapM hlasting hwf fun b hb t₁ hle₁ hwf₁ => ?_).bind
    fun expanded t₁ hle₁ hwf₁ _ hexpanded => ?_
  · have happly := repeatable_applyType hwf₁ ((issued_of_bindings hs₂).of_le hle₁)
      ((hs₁ b hb).of_le hle₁)
    exact happly.bind fun value t₂ _ hwf₂ _ hvalue => .pure hwf₂ hvalue.1
  · refine .pure hwf₁ (issued_of_bindings fun b hb => ?_)
    rcases List.mem_append.mp hb with hb | hb
    · obtain ⟨_, -, hissued⟩ := exists_of_mem_right hexpanded hb
      exact hissued
    · exact (hs₂ b (List.mem_of_mem_filter hb)).of_le hle₁

theorem repeatable_bothWays (hid : t.Issued id) :
    Repeatable t (bothWays s₁ s₂ id) fun _ _ => True := by
  refine (repeatable_applyType hwf (issued_of_bindings hs₁) hid).bind
    fun once t₁ hle₁ hwf₁ _ honce => ?_
  refine (repeatable_applyType hwf₁ ((issued_of_bindings hs₂).of_le hle₁) honce.1).bind
    fun twice t₂ hle₂ hwf₂ _ _ => ?_
  have hle := Interner.le_trans hle₁ hle₂
  refine (repeatable_followedBy hwf₂ (fun b hb => (hs₁ b hb).of_le hle)
    (fun b hb => (hs₂ b hb).of_le hle)).bind fun s t₃ hle₃ hwf₃ _ hs => ?_
  exact (repeatable_applyType hwf₃ hs (hid.of_le (Interner.le_trans hle hle₃))).bind
    fun direct t₄ _ hwf₄ _ _ => .pure hwf₄ trivial

end Issued

/-- What is found by expanding twice is what is found by expanding through both at once. -/
theorem eq_of_finds_followedBy (hwf : t.WellFormed) (hroom : t.HasRoom) (hs₁ : s₁.Regular t)
    (hs₂ : s₂.Regular t) (hany : s₂.NoAny) (hid : t.Proper .anything id)
    {once twice direct : TypeId} (honce : t.Finds (s₁.apply id) once)
    (htwice : t.Finds (s₂.apply once) twice) (hs : t.Finds (s₁.followedBy s₂) s)
    (hdirect : t.Finds (s.apply id) direct)
    (hfirst : s₁.isEmpty = true ∨ ¬ t.Deep Limits.expansion id)
    (hsecond : s₂.isEmpty = true ∨ ¬ t.Deep Limits.expansion once)
    (hvalues : s₂.isEmpty = true ∨ ∀ binding ∈ s₁.bindings, ¬ t.Deep Limits.expansion binding.2) :
    twice = direct := by
  have hbecomes : s₁.Becomes t id once := becomes_of_applyType hwf hroom hs₁ hid hfirst honce
  have hagain : s₂.Becomes t once twice :=
    becomes_of_applyType hwf hroom hs₂ (hbecomes.proper hs₁ hid) hsecond htwice
  -- a value of the first substitution has become what is bound in both at once
  have hvalue : ∀ p v v', s₁.get? p = some v → t.Finds (s₂.apply v) v' → s₂.Becomes t v v' :=
    fun p v v' hv hvv' => becomes_of_applyType hwf hroom hs₂ (hs₁ p v hv)
      (hvalues.imp_right fun h => h (p, v) (mem_of_get? hv)) hvv'
  have hregular : s.Regular t := by
    intro p value hget
    rcases finds_followedBy hs p with ⟨-, hsame⟩ | ⟨v, v', hv, hv', hvv'⟩
    · exact hs₂ p value (hsame ▸ hget)
    · obtain rfl := Option.some.inj (hv'.symm.trans hget)
      exact (hvalue p v _ hv hvv').proper hs₂ (hs₁ p v hv)
  have hshallow : s.isEmpty = true ∨ ¬ t.Deep Limits.expansion id := by
    rcases hfirst with hempty₁ | hdeep
    · refine hsecond.imp (isEmpty_of_finds_followedBy hs hempty₁) fun hdeep => ?_
      -- nothing has been expanded the first time
      unfold apply at honce
      rw [if_pos hempty₁] at honce
      rwa [honce.of_pure] at hdeep
    · exact .inr hdeep
  have hboth : s.Becomes t id direct :=
    becomes_of_applyType hwf hroom hregular hid hshallow hdirect
  refine hagain.unique hwf (hbecomes.compose hwf hs₂ hany hs₁ hid (fun p _ c hc => ?_) hboth)
  rcases finds_followedBy hs p.id with ⟨hnone, hsame⟩ | ⟨v, v', hv, hv', hvv'⟩
  · rw [hnone, hsame, Option.getD_none]
    exact .param hc
  · rw [hv, hv']
    exact hvalue p.id v v' hv hvv'

end Substitution

end

namespace Interner

open Substitution

variable {s₁ s₂ : Substitution} {t t' : Interner} {id twice direct : TypeId}

/-- Expanding a type through one substitution and then through another is expanding it through
both at once, if the second binds nothing to an `Any`, no expansion goes down to the limit, and
the tables do not run out of handles. -/
theorem Reached.apply_followedBy [Digest TypeData] (ht : Reached t) (hid : t.Issued id)
    (hs₁ : ∀ binding ∈ s₁.bindings, t.Issued binding.2)
    (hs₂ : ∀ binding ∈ s₂.bindings, t.Issued binding.2) (hany : s₂.NoAny)
    (habove : StaysAbove s₁ s₂ t id) (hrun : (bothWays s₁ s₂ id).run t = ((twice, direct), t'))
    (hroom : t'.HasRoom) : twice = direct := by
  obtain ⟨hwf, hreg⟩ := ht.wellFormed_regular
  have hboth := repeatable_bothWays hwf hs₁ hs₂ hid
  obtain ⟨hle, hwf', hsettled, -⟩ := hboth.of_run hrun
  -- all is looked at in the tables at the end
  obtain ⟨once, honce, hfinds⟩ := (hsettled.finds hwf').of_bind
  obtain ⟨twice', htwice, hfinds⟩ := hfinds.of_bind
  obtain ⟨s, hs, hfinds⟩ := hfinds.of_bind
  obtain ⟨direct', hdirect, hfinds⟩ := hfinds.of_bind
  obtain ⟨rfl, rfl⟩ := Prod.mk.inj hfinds.of_pure
  have hregular : ∀ {s : Substitution}, (∀ binding ∈ s.bindings, t.Issued binding.2) →
      s.Regular t' := fun h p value hvalue =>
    (hreg.proper hwf (issued_of_bindings h p value hvalue)).of_le hwf hle
  have hfirst := repeatable_applyType hwf (issued_of_bindings hs₁) hid
  have hle₁ : ((s₁.apply id).run t).2 ≤ t' := by
    have hrest : ((s₁.apply id).run t).2 ≤ ((bothWays s₁ s₂ id).run t).2 :=
      Grows.run_le_bind _ _ t
    rwa [hrun] at hrest
  have hsame : ((s₁.apply id).run t).1 = once :=
    ((hfirst.settled.of_le hle₁).finds hwf').unique honce
  refine eq_of_finds_followedBy hwf' hroom (hregular hs₁) (hregular hs₂) hany
    ((hreg.proper hwf hid).of_le hwf hle) honce htwice hs hdirect ?_ ?_ ?_
  · rw [hwf.deep_iff_of_le hle hid]
    exact habove.first
  · rw [← hsame, hfirst.wellFormed.deep_iff_of_le hle₁ hfirst.post.1]
    exact habove.second
  · refine habove.values.imp_right fun h binding hb => ?_
    rw [hwf.deep_iff_of_le hle (hs₁ binding hb)]
    exact h binding hb

/-- `T | U` through `U` for `T` and then the class for `U`, and through both at once. -/
def joinedBothWays : (TypeId × TypeId) × Interner :=
  (bothWays ⟨[(⟨2⟩, ⟨46⟩)]⟩ ⟨[(⟨3⟩, ⟨41⟩)]⟩ ⟨32⟩).run paramsJoined

/-- With `U` for `T` the union collapses before the class is put for `U`; at once it does so
last. -/
theorem paramsJoined_apply_followedBy :
    joinedBothWays.1.1 = joinedBothWays.1.2 ∧ joinedBothWays.1.1 = ⟨41⟩ := by
  have habove : StaysAbove ⟨[(⟨2⟩, ⟨46⟩)]⟩ ⟨[(⟨3⟩, ⟨41⟩)]⟩ paramsJoined ⟨32⟩ :=
    ⟨by decide +kernel, by decide +kernel, by decide +kernel⟩
  have hany : NoAny ⟨[(⟨3⟩, ⟨41⟩)]⟩ := by
    intro p value hvalue
    have hbinding : (p, value) = (⟨3⟩, ⟨41⟩) := List.mem_singleton.mp (mem_of_get? hvalue)
    rw [(Prod.mk.inj hbinding).2]
    rfl
  have hroom : joinedBothWays.2.HasRoom := hasRoom_of_size (by decide +kernel)
  refine ⟨?_, by decide +kernel⟩
  exact reached_paramsJoined.apply_followedBy (by decide +kernel) (by decide +kernel)
    (by decide +kernel) hany habove rfl hroom

end Interner

end Supertypes
