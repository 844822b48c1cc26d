import Supertypes.Proofs.Reachable

/-!
# How hierarchies grow

- `Hierarchy.EditCall`: a call of a program that edits a hierarchy, accepted or refused, whatever
  it passes and whatever types have been interned. `Hierarchy.Edited`: what such calls lead to;
  the reachable hierarchies are among them.
- `Hierarchy.Growth`: the changes that the checks let through. `Hierarchy.EditCall.growth` says
  that a call comes to a sequence of these, and so `Hierarchy.kept_by_calls`: what each of them
  keeps is kept by any number of calls.
- `Hierarchy.Growth.bases_prefix`, `Hierarchy.Growth.acyclic` and `Hierarchy.Growth.params_eq`:
  base edges are only added and form no cycles, and a class keeps its parameters.
-/

namespace Supertypes.Hierarchy

open Relation

variable {h h' : Hierarchy} {c d : ClassId}

/-! ## Calls -/

variable [Digest TypeData]

/-- A call with any arguments, on whatever has been interned. -/
inductive EditCall (h : Hierarchy) : Hierarchy → Prop
  | types (types : Interner) : EditCall h { h with types }
  | freshParam (name : String) : EditCall h ((Hierarchy.freshParam name).run h).2
  | register (name : String) (params : List Param) (flags : ClassFlags) :
    EditCall h ((Hierarchy.register name params flags).run.run h).2
  | addBase (c : ClassId) (base : Instance) : EditCall h ((Hierarchy.addBase c base).run.run h).2
  | setTupleShape (c : ClassId) (elements : List (Element TypeId)) :
    EditCall h ((Hierarchy.setTupleShape c elements).run.run h).2

/-- What calls make of the built-in classes. -/
def Edited (h : Hierarchy) : Prop :=
  ReflTransGen EditCall {} h

theorem Change.editCall (hchange : Change h h') : EditCall h h' := by
  cases hchange with
  | intern types _ => exact .types types
  | freshParam name => exact .freshParam name
  | register name params flags => exact .register name params flags
  | addBase c base _ => exact .addBase c base
  | setTupleShape c elements _ => exact .setTupleShape c elements

theorem Reachable.edited (hr : Reachable h) : Edited h := by
  induction hr with
  | initial => exact .refl
  | next _ hchange ih => exact ih.tail hchange.editCall

/-! ## Changes -/

/-- A change that the checks let through. -/
inductive Growth (h : Hierarchy) : Hierarchy → Prop
  | types (types : Interner) : Growth h { h with types }
  | freshParam (name : String) : Growth h ((Hierarchy.freshParam name).run h).2
  | add (name : String) (params : List Param) (flags : ClassFlags)
    (hfree : h.classes.taken? params = none) :
    Growth h { h with classes := (h.classes.add { name, params, flags }).2 }
  | withBase (c : ClassId) (base : Instance) (hknown : h.classes.contains c = true)
    (hcycle : h.classes.wouldCycle c base.head = false) : Growth h (h.withBase c base)
  | withShape (c : ClassId) (elements : List (Element TypeId))
    (hder : h.classes.derives c .tuple = true) : Growth h (h.withShape c elements)

theorem Admits.growth {base : Instance} (ha : h.Admits c base) : Growth h (h.withBase c base) :=
  .withBase c base ha.known ha.no_cycle

/-- The joined items are an instance of the tuple class, whatever has been interned. -/
theorem head_joined (h : Hierarchy) (elements : List (Element TypeId)) :
    (h.joined elements).1.head = .tuple :=
  rfl

@[simp] theorem classes_joined (h : Hierarchy) (elements : List (Element TypeId)) :
    (h.joined elements).2.classes = h.classes :=
  rfl

/-- With the edge over the joined items the class derives from `tuple`. -/
theorem derives_withBase_joined {elements : List (Element TypeId)}
    (hc : (h.joined elements).2.classes.contains c = true) :
    ((h.joined elements).2.withBase c (h.joined elements).1).classes.derives c .tuple = true := by
  rw [Registry.derives_iff]
  refine .single (List.mem_map.mpr ⟨(h.joined elements).1, ?_, h.head_joined elements⟩)
  simp [bases_withBase hc]

/-- A call makes changes that the checks let through, and no others. -/
theorem EditCall.growth (hcall : EditCall h h') : ReflTransGen Growth h h' := by
  cases hcall with
  | types types => exact .single (.types types)
  | freshParam name => exact .single (.freshParam name)
  | register name params flags =>
    rcases register_cases h name params flags with ⟨p, owner, -, hrun⟩ | ⟨hfree, hrun⟩
    · rw [hrun]
    · rw [hrun]
      exact .single (.add name params flags hfree)
  | addBase c base =>
    rcases addBase_cases h c base with ⟨e, hrun⟩ | ⟨ha, hrun⟩
    · rw [hrun]
    · rw [hrun]
      exact .single ha.growth
  | setTupleShape c elements =>
    -- the items may be joined in vain, and the edge over them comes before the shape
    have hjoined : Growth h (h.joined elements).2 := .types _
    rcases setTupleShape_cases h c elements with ⟨-, hrun⟩ | ⟨-, hder, hrun⟩ | ⟨-, ha, hrun⟩ |
      ⟨-, -, -, e, hrun⟩
    · rw [hrun]
    · rw [hrun]
      exact .single (.withShape c elements hder)
    · rw [hrun]
      exact ((ReflTransGen.single hjoined).tail ha.growth).tail
        (.withShape c elements (derives_withBase_joined ha.known))
    · rw [hrun]
      exact .single hjoined

/-- What every change keeps is kept by any number of calls. -/
theorem kept_by_calls {motive : Hierarchy → Prop} (hrun : ReflTransGen EditCall h h')
    (hstart : motive h) (hkept : ∀ h₁ h₂, Growth h₁ h₂ → motive h₁ → motive h₂) : motive h' := by
  have hchanges : ReflTransGen Growth h h' := hrun.lift' id fun _ _ => EditCall.growth
  clear hrun
  induction hchanges with
  | refl => exact hstart
  | tail _ hgrowth ih => exact hkept _ _ hgrowth ih

/-! ## What every change keeps -/

/-- No change takes base edges away, and new ones come last. -/
theorem Growth.bases_prefix (hgrowth : Growth h h') (d : ClassId) :
    h.classes.bases d <+: h'.classes.bases d := by
  cases hgrowth with
  | types types => exact List.prefix_rfl
  | freshParam name => exact List.prefix_rfl
  | add name params flags _ => rw [Registry.bases_add rfl]
  | withBase c base hknown _ =>
    rw [bases_withBase hknown]
    exact List.prefix_append _ _
  | withShape c elements _ => rw [bases_withShape]

theorem Growth.parents_subset (hgrowth : Growth h h') (d : ClassId) :
    h.classes.parents d ⊆ h'.classes.parents d :=
  ((hgrowth.bases_prefix d).map Instance.head).subset

theorem Growth.ancestor (hgrowth : Growth h h') (ha : h.classes.Ancestor c d) :
    h'.classes.Ancestor c d :=
  ha.mono hgrowth.parents_subset

theorem Growth.acyclic (hgrowth : Growth h h') (hacyclic : h.classes.Acyclic) :
    h'.classes.Acyclic := by
  cases hgrowth with
  | types types => exact hacyclic
  | freshParam name => exact hacyclic
  | add name params flags _ =>
    refine hacyclic.of_parents_subset fun d => ?_
    simp [Registry.parents, Registry.bases_add]
  | withBase c base _ hcycle => exact hacyclic.append hcycle fun d a => mem_parents_withBase
  | withShape c elements _ =>
    refine hacyclic.of_parents_subset fun d => ?_
    simp [Registry.parents]

/-- A class stays registered and keeps its parameters. -/
theorem Growth.params_eq (hgrowth : Growth h h') (hc : h.classes.contains c = true) :
    h'.classes.contains c = true ∧ h'.classes.params c = h.classes.params c := by
  cases hgrowth with
  | types types => exact ⟨hc, rfl⟩
  | freshParam name => exact ⟨hc, rfl⟩
  | add name params flags _ =>
    have hext := Extends.add h { name, params, flags }
    exact ⟨hext.contains c hc, hext.params c hc⟩
  | withBase d base _ _ => simp [hc]
  | withShape d elements _ => simp [hc]

theorem Edited.acyclic (he : Edited h) : h.classes.Acyclic :=
  kept_by_calls he Registry.acyclic_builtin fun _ _ hgrowth => hgrowth.acyclic

end Supertypes.Hierarchy
