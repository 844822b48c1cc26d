import Supertypes.Proofs.Expansion
import Supertypes.Proofs.Growth
import Supertypes.Proofs.LocalEdits

/-!
# Environments of instances

- `Substitution.keys_ofList` and `Substitution.get?_ofList`: bindings stand in the order in which
  their parameters come first, and the last one of a parameter counts.
- `Hierarchy.OwnersAgree`: the owner of a type parameter is the one class that declares it.
  `Hierarchy.Growth.ownersAgree`: every change keeps this.
- `Hierarchy.Edited.environment_faithful_iff`: the environment of an instance binds the
  parameters of its class, in order, to its arguments, if and only if the call that registered
  the class has not been given a parameter twice. The check of that call looks at the classes
  that are there already, and so it does not see a parameter that comes twice in its own list.
-/

namespace Supertypes

/-! ## Bindings in order -/

namespace Substitution

/-- The parameters that are bound, in order. -/
def keys (s : Substitution) : List ParamId :=
  s.bindings.map Prod.fst

theorem any_bindings_iff (s : Substitution) (p : ParamId) :
    s.bindings.any (·.1 = p) = true ↔ p ∈ s.keys := by
  simp [keys]

theorem insert_of_new {s : Substitution} {p : ParamId} (hp : p ∉ s.keys) (id : TypeId) :
    s.insert p id = ⟨s.bindings ++ [(p, id)]⟩ :=
  if_neg (mt (s.any_bindings_iff p).mp hp)

/-- A parameter bound before keeps its place, and a new one comes last. -/
theorem keys_insert (s : Substitution) (p : ParamId) (id : TypeId) :
    (s.insert p id).keys = if p ∈ s.keys then s.keys else s.keys ++ [p] := by
  by_cases hp : p ∈ s.keys
  · unfold insert
    rw [if_pos hp, if_pos ((s.any_bindings_iff p).mpr hp)]
    unfold keys
    rw [List.map_map]
    refine List.map_congr_left fun binding _ => ?_
    by_cases hb : binding.1 = p <;> simp [hb]
  · rw [if_neg hp, insert_of_new hp]
    simp [keys]

theorem ofList_concat (bindings : List (ParamId × TypeId)) (binding : ParamId × TypeId) :
    ofList (bindings ++ [binding]) = (ofList bindings).insert binding.1 binding.2 := by
  simp [ofList, List.foldl_append]

/-- The parameters of a list of bindings, each at its first place. -/
theorem keys_ofList (bindings : List (ParamId × TypeId)) :
    (ofList bindings).keys = (bindings.map Prod.fst).eraseDups := by
  induction bindings using List.reverseRecOn with
  | nil => rfl
  | append_singleton bindings binding ih =>
    rw [ofList_concat, keys_insert, ih, List.map_append, List.eraseDups_append, List.map_singleton]
    by_cases hp : binding.1 ∈ bindings.map Prod.fst
    · simp [hp, List.removeAll, List.mem_eraseDups]
    · simp [hp, List.removeAll, List.mem_eraseDups, List.eraseDups_cons]

theorem nodup_keys_ofList (bindings : List (ParamId × TypeId)) : (ofList bindings).keys.Nodup := by
  induction bindings using List.reverseRecOn with
  | nil => exact List.nodup_nil
  | append_singleton bindings binding ih =>
    rw [ofList_concat, keys_insert]
    split
    · exact ih
    · rename_i hnew
      refine List.nodup_append.mpr ⟨ih, List.nodup_singleton _, fun p hp q hq heq => hnew ?_⟩
      rwa [← List.mem_singleton.mp hq, ← heq]

/-- Bindings of different parameters are all kept as they are. -/
theorem bindings_ofList {bindings : List (ParamId × TypeId)}
    (hnodup : (bindings.map Prod.fst).Nodup) : (ofList bindings).bindings = bindings := by
  induction bindings using List.reverseRecOn with
  | nil => rfl
  | append_singleton bindings binding ih =>
    rw [List.map_append, List.nodup_append] at hnodup
    obtain ⟨hold, -, hnew⟩ := hnodup
    have hkeys : binding.1 ∉ (ofList bindings).keys := by
      rw [keys_ofList, List.mem_eraseDups]
      exact fun hmem => hnew _ hmem _ (List.mem_singleton_self _) rfl
    rw [ofList_concat, insert_of_new hkeys, ih hold]

/-- The bindings stay as they are just if no parameter comes twice. -/
theorem bindings_ofList_iff {bindings : List (ParamId × TypeId)} :
    (ofList bindings).bindings = bindings ↔ (bindings.map Prod.fst).Nodup := by
  constructor
  · intro heq
    have hnodup := nodup_keys_ofList bindings
    unfold keys at hnodup
    rwa [heq] at hnodup
  · exact bindings_ofList

end Substitution

/-! ## Owners -/

namespace Registry

variable {r r' : Registry} {params : List Param}

/-- No parameter is taken if and only if none has an owner. -/
theorem taken?_eq_none_iff : r.taken? params = none ↔ ∀ p ∈ params, r.owner? p.id = none := by
  simp [taken?, List.findSome?_eq_none_iff]

/-- A parameter of a new class belongs to that class unless it belongs to a class already. -/
theorem owner?_add (r : Registry) (info : ClassInfo) (p : ParamId) :
    (r.add info).2.owner? p =
      (r.owner? p).or (if info.declares p then some ⟨r.size + 1⟩ else none) := by
  have hnew : ((info.params.map fun q => (q.id, (⟨r.size + 1⟩ : ClassId))).find? (·.1 = p)).map
      Prod.snd = if info.declares p then some ⟨r.size + 1⟩ else none := by
    unfold ClassInfo.declares
    induction info.params with
    | nil => rfl
    | cons q params ih =>
      by_cases hq : q.id = p
      · simp [hq]
      · simpa [hq] using ih
  unfold owner?
  rw [← hnew, ← Option.map_or, ← List.find?_append]
  rfl

theorem SameTables.owner?_eq (h : SameTables r r') (p : ParamId) : r'.owner? p = r.owner? p := by
  unfold owner?
  rw [h.owners]

end Registry

namespace Hierarchy

open Relation

variable {h h' h₀ h₁ : Hierarchy} {c d : ClassId} {p q : Param}

/-- The owner of a parameter is the class that declares it. -/
def OwnersAgree (h : Hierarchy) : Prop :=
  ∀ c, ∀ p ∈ h.classes.params c, h.classes.owner? p.id = some c

/-- Two classes declare no parameter of the same identity. -/
theorem OwnersAgree.apart (ho : h.OwnersAgree) (hp : p ∈ h.classes.params c)
    (hq : q ∈ h.classes.params d) (heq : p.id = q.id) : c = d := by
  have hc := ho c p hp
  rw [heq, ho d q hq] at hc
  exact (Option.some.inj hc).symm

theorem ownersAgree_initial : ({} : Hierarchy).OwnersAgree := by
  rintro ⟨n⟩ p hp
  match n with
  | 0 => exact absurd hp List.not_mem_nil
  | 1 => exact absurd hp List.not_mem_nil
  | 2 =>
    rw [List.mem_singleton.mp hp]
    rfl
  | n + 3 => exact absurd hp List.not_mem_nil

/-- A class that is added gets the parameters that are free, and all others stay where they
are. -/
theorem OwnersAgree.add (ho : h.OwnersAgree) {info : ClassInfo}
    (hfree : h.classes.taken? info.params = none) :
    ({ h with classes := (h.classes.add info).2 } : Hierarchy).OwnersAgree := by
  intro c p hp
  show (h.classes.add info).2.owner? p.id = some c
  rw [Registry.owner?_add]
  have hget := h.classes.get?_add info c
  unfold Registry.params at hp
  rw [hget] at hp
  by_cases hc : c = ⟨h.classes.size + 1⟩
  · rw [if_pos hc] at hp
    have hdeclared : info.declares p.id = true := by
      simpa [ClassInfo.declares] using ⟨p, hp, rfl⟩
    rw [Registry.taken?_eq_none_iff.mp hfree p hp, hdeclared, hc]
    rfl
  · rw [if_neg hc] at hp
    rw [ho c p hp, Option.some_or]

section

variable [Digest TypeData]

theorem Growth.ownersAgree (hgrowth : Growth h h') (ho : h.OwnersAgree) : h'.OwnersAgree := by
  cases hgrowth with
  | types types => exact ho
  | freshParam name => exact ho
  | add name params flags hfree => exact ho.add hfree
  | withBase d base _ _ =>
    intro c p hp
    rw [params_withBase] at hp
    have htables := Registry.sameTables_update h.classes d fun info =>
      { info with bases := info.bases ++ [base] }
    exact (htables.owner?_eq p.id).trans (ho c p hp)
  | withShape d elements _ =>
    intro c p hp
    rw [params_withShape] at hp
    have htables := (Registry.sameTables_update h.classes d fun info => { info with
      shape := some { elements }
      flags := { info.flags with tupleShaped := true } }).trans
        (Registry.sameTables_markRecursion _ h.types)
    exact (htables.owner?_eq p.id).trans (ho c p hp)

theorem Edited.ownersAgree (he : Edited h) : h.OwnersAgree :=
  kept_by_calls he ownersAgree_initial fun _ _ hgrowth => hgrowth.ownersAgree

/-! ## Where parameters come from -/

/-- A class that is new after a call has been registered by it, with the parameters that the call
has been given. -/
theorem EditCall.contains_cases (hcall : EditCall h h') (hc : h'.classes.contains c = true) :
    h.classes.contains c = true ∨
      ∃ name params flags, (Hierarchy.register name params flags).run.run h = (.ok c, h') ∧
        h'.classes.params c = params := by
  cases hcall with
  | types types => exact .inl hc
  | freshParam name => exact .inl hc
  | register name params flags =>
    rcases register_cases h name params flags with ⟨p, owner, -, hrun⟩ | ⟨-, hrun⟩
    · rw [hrun] at hc
      exact .inl hc
    · rw [hrun] at hc
      -- a class is new only if this call has registered it
      have hget := h.classes.get?_add { name, params, flags } c
      by_cases hnew : c = ⟨h.classes.size + 1⟩
      · rw [if_pos hnew] at hget
        refine .inr ⟨name, params, flags, ?_, ?_⟩
        · rw [hrun, hnew]
        · rw [hrun]
          exact Registry.params_of_get? hget
      · rw [if_neg hnew] at hget
        unfold Registry.contains at hc ⊢
        rw [hget] at hc
        exact .inl hc
  -- base edges and shapes register nothing
  | addBase d base =>
    rcases addBase_cases h d base with ⟨e, hrun⟩ | ⟨-, hrun⟩
    · rw [hrun] at hc
      exact .inl hc
    · rw [hrun, contains_withBase] at hc
      exact .inl hc
  | setTupleShape d elements =>
    rcases setTupleShape_cases h d elements with ⟨-, hrun⟩ | ⟨-, -, hrun⟩ | ⟨-, -, hrun⟩ |
      ⟨-, -, -, e, hrun⟩
    all_goals
      rw [hrun] at hc
      refine .inl ?_
      simpa using hc

/-- Later calls leave the parameters of a class as they are. -/
theorem params_of_later (hlater : ReflTransGen EditCall h h') (hc : h.classes.contains c = true) :
    h'.classes.contains c = true ∧ h'.classes.params c = h.classes.params c := by
  refine kept_by_calls (motive := fun h' =>
    h'.classes.contains c = true ∧ h'.classes.params c = h.classes.params c) hlater ⟨hc, rfl⟩ ?_
  intro h₁ h₂ hgrowth hkept
  obtain ⟨hknown, hparams⟩ := hgrowth.params_eq hkept.1
  exact ⟨hknown, hparams.trans hkept.2⟩

/-- A class is built in, or an accepted call has registered it with the parameters that it
has. -/
theorem Edited.params_provenance (he : Edited h) (hc : h.classes.contains c = true) :
    Registry.builtin.contains c = true ∧ h.classes.params c = Registry.builtin.params c ∨
      ∃ h₀ h₁ name params flags, Edited h₀ ∧
        (register name params flags).run.run h₀ = (.ok c, h₁) ∧ ReflTransGen EditCall h₁ h ∧
        h.classes.params c = params := by
  unfold Edited at he
  induction he with
  | refl => exact .inl ⟨hc, rfl⟩
  | @tail h₀ h hrun hcall ih =>
    rcases hcall.contains_cases hc with hold | ⟨name, params, flags, hregister, hparams⟩
    · have hkept := (params_of_later (.single hcall) hold).2
      rcases ih hold with
        ⟨hbuiltin, heq⟩ | ⟨h₁, h₂, name, params, flags, he, hregister, hlater, heq⟩
      · exact .inl ⟨hbuiltin, hkept.trans heq⟩
      · exact .inr ⟨h₁, h₂, name, params, flags, he, hregister, hlater.tail hcall,
          hkept.trans heq⟩
    · exact .inr ⟨h₀, h, name, params, flags, hrun, hregister, .refl, hparams⟩

omit [Digest TypeData] in
/-- The built-in classes declare no parameter twice. -/
theorem nodup_params_builtin (c : ClassId) : ((Registry.builtin.params c).map Param.id).Nodup := by
  obtain ⟨n⟩ := c
  match n with
  | 0 => exact List.nodup_nil
  | 1 => exact List.nodup_nil
  | 2 => exact List.nodup_singleton _
  | n + 3 => exact List.nodup_nil

/-! ## Environments -/

omit [Digest TypeData] in
/-- Each parameter that the class declares is bound, in the order of first places, to the last of
the arguments in its places. There is one entry for each place if and only if no parameter is
declared twice. -/
theorem environment_entries (h : Hierarchy) (types : Interner) (i : Instance)
    (harity : (types.args i).length = (h.classes.params i.head).length) :
    let env := h.mapper.environment types i
    let ids := (h.classes.params i.head).map Param.id
    (env.bindings = ids.zip (types.args i) ↔ ids.Nodup) ∧ env.keys = ids.eraseDups ∧
      ∀ p, env.get? p = ((ids.zip (types.args i)).reverse.find? (·.1 = p)).map Prod.snd := by
  intro env ids
  have hkeys : (ids.zip (types.args i)).map Prod.fst = ids :=
    List.map_fst_zip (by simp [ids, harity])
  have henv : env = .ofList (ids.zip (types.args i)) := rfl
  rw [henv]
  refine ⟨?_, ?_, Substitution.get?_ofList _⟩
  · rw [Substitution.bindings_ofList_iff, hkeys]
  · rw [Substitution.keys_ofList, hkeys]

/-- After whatever calls, the environment of an instance with as many arguments as its class has
parameters has one entry for each parameter, in order, if and only if no parameter is declared
twice; otherwise the last argument counts, in the first place. A parameter is declared by one
class only. It is declared twice if the accepted call that registered the class has been given it
twice, and in no other case. -/
theorem Edited.environment_faithful_iff (he : Edited h) (hc : h.classes.contains c = true) :
    (∀ types i, i.head = c → (types.args i).length = (h.classes.params c).length →
      let env := h.mapper.environment types i
      let ids := (h.classes.params c).map Param.id
      (env.bindings = ids.zip (types.args i) ↔ ids.Nodup) ∧ env.keys = ids.eraseDups ∧
        ∀ p, env.get? p = ((ids.zip (types.args i)).reverse.find? (·.1 = p)).map Prod.snd) ∧
    (∀ p ∈ h.classes.params c, ∀ d, ∀ q ∈ h.classes.params d, p.id = q.id → d = c) ∧
    (((h.classes.params c).map Param.id).Nodup ∨
      ∃ h₀ h₁ name params flags, Edited h₀ ∧
        (register name params flags).run.run h₀ = (.ok c, h₁) ∧ ReflTransGen EditCall h₁ h ∧
        h.classes.params c = params) := by
  refine ⟨?_, ?_, ?_⟩
  · rintro types i rfl harity
    exact h.environment_entries types i harity
  · exact fun p hp d q hq heq => (he.ownersAgree.apart hp hq heq).symm
  · refine (he.params_provenance hc).imp_left fun hbuiltin => ?_
    rw [hbuiltin.2]
    exact nodup_params_builtin c

end

theorem box_environment_faithful :
    (box.mapper.environment box.types ⟨⟨3⟩, ⟨1⟩⟩).bindings = [(⟨2⟩, ⟨42⟩)] := by
  have hentries := (reachable_box.edited.environment_faithful_iff (c := ⟨3⟩)
    (by decide +kernel)).1 box.types ⟨⟨3⟩, ⟨1⟩⟩ rfl (by decide +kernel)
  have hfaithful := hentries.1.mpr (by decide +kernel)
  rw [hfaithful]
  decide +kernel

/-- The class `Twin[T, T]`, with one parameter in two places. -/
def twin : Hierarchy :=
  let h := ((Hierarchy.freshParam "T").run {}).2
  let h := ((Hierarchy.register "Twin" [⟨⟨2⟩, "T"⟩, ⟨⟨2⟩, "T"⟩] {}).run.run h).2
  { h with types := ((Interner.internTypes [.never, .any .explicit]).run h.types).2 }

theorem edited_twin : Edited twin :=
  ((ReflTransGen.single (.freshParam "T")).tail
    (.register "Twin" [⟨⟨2⟩, "T"⟩, ⟨⟨2⟩, "T"⟩] {})).tail (.types _)

/-- The class is registered, and the environment of `Twin[Never, Any]` has one entry for the two
places. -/
theorem twin_environment_short :
    Edited twin ∧ twin.classes.contains ⟨3⟩ = true ∧
    (twin.types.args ⟨⟨3⟩, ⟨1⟩⟩) = [.never, .any .explicit] ∧
    (twin.classes.params ⟨3⟩).map Param.id = [⟨2⟩, ⟨2⟩] ∧
    (twin.mapper.environment twin.types ⟨⟨3⟩, ⟨1⟩⟩).bindings = [(⟨2⟩, .any .explicit)] ∧
    (twin.mapper.environment twin.types ⟨⟨3⟩, ⟨1⟩⟩).bindings ≠
      ((twin.classes.params ⟨3⟩).map Param.id).zip (twin.types.args ⟨⟨3⟩, ⟨1⟩⟩) :=
  ⟨edited_twin, by decide +kernel, by decide +kernel, by decide +kernel, by decide +kernel,
    by decide +kernel⟩

end Hierarchy

end Supertypes
