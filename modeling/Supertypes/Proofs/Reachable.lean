import Supertypes.Ancestry.Mapper
import Supertypes.Proofs.Edits
import Supertypes.Types.Digest

/-!
# Reachable hierarchies

- `Hierarchy.Change`: one step of a program that interns types and edits a hierarchy, be the edit
  accepted or refused. `Hierarchy.Reachable`: a hierarchy that such steps lead to.
- `Hierarchy.Sound`: what every step keeps. `Hierarchy.Sound.extend` covers the steps that leave
  the base edges alone, `Hierarchy.Sound.withBase` the one that adds an edge.
- `Hierarchy.Reachable.inheritance_valid`: in a reachable hierarchy every base edge is valid, and
  no class is its own ancestor.
-/

namespace Supertypes.Hierarchy

open Interner

variable {h h' : Hierarchy}

/-! ## Steps -/

/-- One step of a program that interns types and edits a hierarchy. The handles in use are those
of its own tables. -/
inductive Change [Digest TypeData] (h : Hierarchy) : Hierarchy → Prop
  | intern (types : Interner) (hbuilds : Builds h.types types) : Change h { h with types }
  | freshParam (name : String) : Change h ((Hierarchy.freshParam name).run h).2
  | register (name : String) (params : List Param) (flags : ClassFlags) :
    Change h ((Hierarchy.register name params flags).run.run h).2
  | addBase (c : ClassId) (base : Instance) (hbase : h.types.IssuedList base.args) :
    Change h ((Hierarchy.addBase c base).run.run h).2
  | setTupleShape (c : ClassId) (elements : List (Element TypeId))
    (hitems : ∀ e ∈ elements, h.types.Issued e.item) :
    Change h ((Hierarchy.setTupleShape c elements).run.run h).2

/-- The hierarchies of the programs that start from the built-in classes. -/
inductive Reachable [Digest TypeData] : Hierarchy → Prop
  | initial : Reachable {}
  | next {h h' : Hierarchy} (hr : Reachable h) (hchange : Change h h') : Reachable h'

/-! ## What edits leave alone -/

/-- The new edge comes last. -/
theorem bases_withBase (hc : h.classes.contains c = true) (base : Instance) (d : ClassId) :
    (h.withBase c base).classes.bases d = h.classes.bases d ++ if d = c then [base] else [] := by
  unfold withBase Registry.bases
  rw [Registry.get?_update]
  by_cases hd : d = c
  · subst hd
    obtain ⟨info, hinfo⟩ := Registry.get?_of_contains hc
    rw [hinfo]
    simp
  · rw [if_neg hd, List.append_nil]
    simp [hd]

/-- The only base edge that is new is the one added. -/
theorem mem_bases_withBase {c : ClassId} {base : Instance} {d : ClassId} {edge : Instance}
    (hedge : edge ∈ (h.withBase c base).classes.bases d) :
    edge ∈ h.classes.bases d ∨ d = c ∧ edge = base := by
  unfold withBase Registry.bases at hedge
  rw [Registry.get?_update] at hedge
  unfold Registry.bases
  cases hd : h.classes.get? d with
  | none =>
    rw [hd] at hedge
    exact absurd hedge List.not_mem_nil
  | some info =>
    rw [hd] at hedge
    have hmem : edge ∈ ClassInfo.bases
        (if d = c then { info with bases := info.bases ++ [base] } else info) := hedge
    split at hmem
    · rename_i hdc
      rcases List.mem_append.mp hmem with hold | hnew
      · exact .inl hold
      · exact .inr ⟨hdc, List.mem_singleton.mp hnew⟩
    · exact .inl hmem

/-- So the only new parent is the class that the edge leads to. -/
theorem mem_parents_withBase {c : ClassId} {base : Instance} {d a : ClassId}
    (ha : a ∈ (h.withBase c base).classes.parents d) :
    a ∈ h.classes.parents d ∨ d = c ∧ a = base.head := by
  obtain ⟨edge, hedge, rfl⟩ := List.mem_map.mp ha
  rcases mem_bases_withBase hedge with hold | ⟨hdc, heq⟩
  · exact .inl (List.mem_map_of_mem hold)
  · exact .inr ⟨hdc, congrArg Instance.head heq⟩

@[simp] theorem params_withBase (h : Hierarchy) (c : ClassId) (base : Instance) (d : ClassId) :
    (h.withBase c base).classes.params d = h.classes.params d := by
  unfold withBase
  rw [Registry.params_update]
  intro info
  rfl

@[simp] theorem contains_withBase (h : Hierarchy) (c : ClassId) (base : Instance) (d : ClassId) :
    (h.withBase c base).classes.contains d = h.classes.contains d :=
  Registry.contains_update h.classes c _ d

/-- Adding a base edge sets no shape. -/
theorem shape?_withBase {c : ClassId} {base : Instance} {d : ClassId} {shape : TupleShape}
    (hshape : (h.withBase c base).classes.shape? d = some shape) :
    h.classes.shape? d = some shape := by
  unfold withBase at hshape
  rw [Registry.shape?_update] at hshape
  split at hshape
  · exact hshape
  · exact hshape

section

variable [Digest TypeData]

@[simp] theorem bases_withShape (h : Hierarchy) (c : ClassId) (elements : List (Element TypeId))
    (d : ClassId) : (h.withShape c elements).classes.bases d = h.classes.bases d := by
  unfold withShape
  rw [Registry.bases_markRecursion, Registry.bases_update]
  intro info
  rfl

@[simp] theorem params_withShape (h : Hierarchy) (c : ClassId) (elements : List (Element TypeId))
    (d : ClassId) : (h.withShape c elements).classes.params d = h.classes.params d := by
  unfold withShape
  rw [Registry.params_markRecursion, Registry.params_update]
  intro info
  rfl

@[simp] theorem contains_withShape (h : Hierarchy) (c : ClassId) (elements : List (Element TypeId))
    (d : ClassId) : (h.withShape c elements).classes.contains d = h.classes.contains d := by
  unfold withShape
  rw [Registry.contains_markRecursion, Registry.contains_update]

/-- A shape is the one declared last or an older one. -/
theorem shape?_withShape {c : ClassId} {elements : List (Element TypeId)} {d : ClassId}
    {shape : TupleShape} (hshape : (h.withShape c elements).classes.shape? d = some shape) :
    d = c ∧ shape.elements = elements ∨
      ∃ old, h.classes.shape? d = some old ∧ shape.elements = old.elements := by
  obtain ⟨marked, hmarked, heq⟩ := Registry.shape?_markRecursion hshape
  rw [Registry.shape?_update] at hmarked
  rw [← heq]
  split at hmarked
  · rename_i hdc
    obtain ⟨info, -, hnew⟩ := Option.bind_eq_some_iff.mp hmarked
    exact .inl ⟨hdc, by rw [← Option.some.inj hnew]⟩
  · exact .inr ⟨marked, hmarked, rfl⟩

end

/-! ## What every step keeps -/

/-- `h'` goes on from `h`: what has been interned stays, and so do classes and their
parameters. -/
structure Extends (h h' : Hierarchy) : Prop where
  types : h.types ≤ h'.types
  contains : ∀ c, h.classes.contains c = true → h'.classes.contains c = true
  params : ∀ c, h.classes.contains c = true → h'.classes.params c = h.classes.params c

namespace Extends

theorem refl (h : Hierarchy) : Extends h h :=
  ⟨h.types.le_refl, fun _ hc => hc, fun _ _ => rfl⟩

/-- Extensions can be put one after the other. -/
theorem trans {a b c : Hierarchy} (hab : Extends a b) (hbc : Extends b c) : Extends a c where
  types := Interner.le_trans hab.types hbc.types
  contains := fun d hd => hbc.contains d (hab.contains d hd)
  params := fun d hd => by rw [hbc.params d (hab.contains d hd), hab.params d hd]

theorem intern {types : Interner} (hle : h.types ≤ types) : Extends h { h with types } :=
  ⟨hle, fun _ hc => hc, fun _ _ => rfl⟩

/-- Adding a class extends a hierarchy. -/
theorem add (h : Hierarchy) (info : ClassInfo) :
    Extends h { h with classes := (h.classes.add info).2 } where
  types := h.types.le_refl
  contains := by
    intro d hd
    obtain ⟨old, hold⟩ := Registry.get?_of_contains hd
    exact Option.isSome_iff_exists.mpr ⟨old, Registry.get?_add_of_some hold⟩
  params := by
    intro d hd
    obtain ⟨old, hold⟩ := Registry.get?_of_contains hd
    rw [Registry.params_of_get? hold]
    exact Registry.params_of_get? (Registry.get?_add_of_some hold)

theorem withBase (h : Hierarchy) (c : ClassId) (base : Instance) :
    Extends h (h.withBase c base) where
  types := h.types.le_refl
  contains := fun d hd => by rw [contains_withBase, hd]
  params := fun d _ => params_withBase h c base d

theorem withShape [Digest TypeData] (h : Hierarchy) (c : ClassId)
    (elements : List (Element TypeId)) : Extends h (h.withShape c elements) where
  types := h.types.le_refl
  contains := fun d hd => by rw [contains_withShape, hd]
  params := fun d _ => params_withShape h c elements d

end Extends

section

variable [Digest TypeData]

/-- The invariant of reachable hierarchies. -/
structure Sound (h : Hierarchy) : Prop where
  wellFormed : h.types.WellFormed
  bases_issued : ∀ c, ∀ base ∈ h.classes.bases c, h.types.IssuedList base.args
  shapes_issued : ∀ c shape, h.classes.shape? c = some shape →
    ∀ e ∈ shape.elements, h.types.Issued e.item
  bases_valid : ∀ c, ∀ base ∈ h.classes.bases c, h.EdgeValid c base
  acyclic : h.classes.Acyclic
  /-- The class that tuple shapes add an edge to is there and takes one argument. -/
  tuple_unary : h.classes.contains .tuple = true ∧ (h.classes.params .tuple).length = 1

omit [Digest TypeData] in
/-- A class with a base edge is registered. -/
theorem contains_of_mem_bases {c : ClassId} {base : Instance} (hbase : base ∈ h.classes.bases c) :
    h.classes.contains c = true := by
  obtain ⟨info, hinfo, -⟩ := Registry.get?_of_mem_bases hbase
  exact Option.isSome_iff_exists.mpr ⟨info, hinfo⟩

/-- Valid edges stay valid. -/
theorem EdgeValid.of_extends {c : ClassId} {base : Instance} (hvalid : h.EdgeValid c base)
    (hext : Extends h h') (hwf : h.types.WellFormed) (hissued : h.types.IssuedList base.args)
    (hc : h.classes.contains c = true) : h'.EdgeValid c base := by
  -- the arguments are read as before, and mention what they did
  have hargs : h'.types.args base = h.types.args base := IssuedList.args_eq hissued hext.types
  refine ⟨hext.contains _ hvalid.registered, ?_, ?_⟩
  · rw [hargs, hext.params _ hvalid.registered]
    exact hvalid.arity
  · rw [hargs, hext.params _ hc]
    intro arg harg p hp
    have hissued' := hwf.issued_of_mem_typeList harg
    exact hvalid.own arg harg p ((hwf.mentions_iff_of_le hext.types hissued').mp hp)

/-- Steps that leave the base edges alone. -/
theorem Sound.extend (hs : h.Sound) (hext : Extends h h') (hwf : h'.types.WellFormed)
    (hbases : ∀ c, h'.classes.bases c = h.classes.bases c)
    (hshapes : ∀ c shape, h'.classes.shape? c = some shape →
      ∀ e ∈ shape.elements, h'.types.Issued e.item) : h'.Sound where
  wellFormed := hwf
  bases_issued := by
    intro c base hbase
    rw [hbases] at hbase
    exact (hs.bases_issued c base hbase).of_le hext.types
  shapes_issued := hshapes
  bases_valid := by
    intro c base hbase
    rw [hbases] at hbase
    exact (hs.bases_valid c base hbase).of_extends hext hs.wellFormed (hs.bases_issued c base hbase)
      (contains_of_mem_bases hbase)
  acyclic := by
    refine hs.acyclic.of_parents_subset fun c => ?_
    unfold Registry.parents
    rw [hbases]
    exact List.Subset.refl _
  tuple_unary := by
    obtain ⟨hcontains, hparams⟩ := hs.tuple_unary
    refine ⟨hext.contains _ hcontains, ?_⟩
    rw [hext.params _ hcontains, hparams]

/-- The step that adds an edge, which has to be one that may be added. -/
theorem Sound.withBase (hs : h.Sound) {c : ClassId} {base : Instance} (ha : h.Admits c base)
    (hissued : h.types.IssuedList base.args) : (h.withBase c base).Sound := by
  have hext := Extends.withBase h c base
  refine {
    wellFormed := hs.wellFormed
    bases_issued := ?_
    shapes_issued := fun d shape hshape => hs.shapes_issued d shape (shape?_withBase hshape)
    bases_valid := ?_
    acyclic := hs.acyclic.append ha.no_cycle fun d a => mem_parents_withBase
    tuple_unary := ?_ }
  · -- arguments of the old edges and of the new one
    intro d edge hedge
    rcases mem_bases_withBase hedge with hold | ⟨-, rfl⟩
    · exact hs.bases_issued d edge hold
    · exact hissued
  · -- what the checks ask for, old edge or new
    intro d edge hedge
    rcases mem_bases_withBase hedge with hold | ⟨rfl, rfl⟩
    · exact (hs.bases_valid d edge hold).of_extends hext hs.wellFormed
        (hs.bases_issued d edge hold) (contains_of_mem_bases hold)
    · exact ha.toEdgeValid.of_extends hext hs.wellFormed hissued ha.known
  · rw [contains_withBase, params_withBase]
    exact hs.tuple_unary

/-- The step that declares a tuple shape. -/
theorem Sound.withShape (hs : h.Sound) (c : ClassId) {elements : List (Element TypeId)}
    (hitems : ∀ e ∈ elements, h.types.Issued e.item) : (h.withShape c elements).Sound := by
  refine hs.extend (.withShape h c elements) hs.wellFormed (bases_withShape h c elements) ?_
  intro d shape hshape e he
  rcases shape?_withShape hshape with ⟨-, heq⟩ | ⟨old, hold, heq⟩
  · rw [heq] at he
    exact hitems e he
  · rw [heq] at he
    exact hs.shapes_issued d old hold e he

/-- Interning keeps the invariant. -/
theorem Sound.intern (hs : h.Sound) {types : Interner} (hle : h.types ≤ types)
    (hwf : types.WellFormed) : ({ h with types } : Hierarchy).Sound := by
  refine hs.extend (.intern hle) hwf (fun _ => rfl) ?_
  intro c shape hshape e he
  exact (hs.shapes_issued c shape hshape e he).of_le hle

/-- A new class has no bases, and takes no number that is in use. -/
theorem Sound.add (hs : h.Sound) (name : String) (params : List Param) (flags : ClassFlags) :
    ({ h with classes := (h.classes.add { name, params, flags }).2 } : Hierarchy).Sound := by
  refine hs.extend (.add h _) hs.wellFormed (Registry.bases_add rfl) ?_
  intro d shape hshape
  rw [Registry.shape?_add rfl] at hshape
  exact hs.shapes_issued d shape hshape

/-- The hierarchy at the start is sound. -/
theorem Sound.initial : ({} : Hierarchy).Sound where
  wellFormed := .empty
  bases_issued := by
    intro c base hbase
    rw [Registry.bases_builtin] at hbase
    split at hbase
    · rw [List.mem_singleton.mp hbase]
      exact Nat.le_refl 0
    · exact absurd hbase List.not_mem_nil
  shapes_issued := by
    intro c shape hshape
    rw [Registry.shape?_builtin] at hshape
    cases hshape
  bases_valid := by
    intro c base hbase
    rw [Registry.bases_builtin] at hbase
    split at hbase
    · rw [List.mem_singleton.mp hbase]
      exact ⟨rfl, rfl, fun arg harg => absurd harg List.not_mem_nil⟩
    · exact absurd hbase List.not_mem_nil
  acyclic := Registry.acyclic_builtin
  tuple_unary := ⟨rfl, rfl⟩

/-- What one step does: it goes on from where the hierarchy stands and keeps the invariant. -/
theorem Change.extends_sound (hs : h.Sound) (hchange : Change h h') : Extends h h' ∧ h'.Sound := by
  cases hchange with
  | intern types hbuilds =>
    obtain ⟨hle, hwf⟩ := hbuilds.grows hs.wellFormed
    exact ⟨.intern hle, hs.intern hle hwf⟩
  | freshParam name =>
    have hext : Extends h ((Hierarchy.freshParam name).run h).2 :=
      ⟨h.types.le_refl, fun _ hc => hc, fun _ _ => rfl⟩
    exact ⟨hext, hs.extend hext hs.wellFormed (fun _ => rfl) hs.shapes_issued⟩
  | register name params flags =>
    rcases register_cases h name params flags with ⟨p, owner, -, hrun⟩ | ⟨-, hrun⟩
    · rw [hrun]
      exact ⟨.refl h, hs⟩
    · rw [hrun]
      exact ⟨.add h _, hs.add name params flags⟩
  | addBase c base hbase =>
    rcases addBase_cases h c base with ⟨e, hrun⟩ | ⟨ha, hrun⟩
    · rw [hrun]
      exact ⟨.refl h, hs⟩
    · rw [hrun]
      exact ⟨.withBase h c base, hs.withBase ha hbase⟩
  | setTupleShape c elements hitems =>
    -- the joined items stay interned even if the edge is refused
    have hfallback := repeatable_tupleFallback hs.wellFormed .tuple hitems
    have hext : Extends h (h.joined elements).2 := .intern hfallback.le
    have hjoined : (h.joined elements).2.Sound := hs.intern hfallback.le hfallback.wellFormed
    have hitems' : ∀ e ∈ elements, (h.joined elements).2.types.Issued e.item :=
      fun e he => (hitems e he).of_le hfallback.le
    rcases setTupleShape_cases h c elements with ⟨-, hrun⟩ | ⟨-, -, hrun⟩ | ⟨-, ha, hrun⟩ |
      ⟨-, -, -, e, hrun⟩
    · rw [hrun]
      exact ⟨.refl h, hs⟩
    · rw [hrun]
      exact ⟨.withShape h c elements, hs.withShape c hitems⟩
    · rw [hrun]
      exact ⟨(hext.trans (.withBase _ c _)).trans (.withShape _ c elements),
        (hjoined.withBase ha hfallback.post.2.1).withShape c hitems'⟩
    · rw [hrun]
      exact ⟨hext, hjoined⟩

/-- So all reachable hierarchies are sound. -/
theorem Reachable.sound (hr : Reachable h) : h.Sound := by
  induction hr with
  | initial => exact Sound.initial
  | next _ hchange ih => exact (hchange.extends_sound ih).2

/-- In a reachable hierarchy every base edge is valid, and base edges form no cycle. -/
theorem Reachable.inheritance_valid (hr : Reachable h) :
    (∀ c, ∀ base ∈ h.classes.bases c, h.EdgeValid c base) ∧ ∀ c, ¬ h.classes.Ancestor c c :=
  ⟨hr.sound.bases_valid, hr.sound.acyclic⟩

end

/-- The mapper over the classes of a hierarchy that follows all paths. -/
def mapper (h : Hierarchy) : Mapper := { view := h.classes.view }

/-- The class `Box[T]` over `tuple[T]`. -/
def box : Hierarchy :=
  let types := ((Interner.param ⟨⟨2⟩, "T"⟩).run {}).2
  let types := ((internTypes [⟨42⟩]).run types).2
  let h := ((Hierarchy.register "Box" [⟨⟨2⟩, "T"⟩] {}).run.run { types }).2
  ((Hierarchy.addBase ⟨3⟩ ⟨.tuple, ⟨1⟩⟩).run.run h).2

/-- A class over `tuple` can be built. -/
theorem reachable_box : Reachable box := by
  refine .next (.next (.next (.next .initial (.intern _ (.data (.param ⟨⟨2⟩, "T"⟩) trivial)))
    (.intern _ (.types [⟨42⟩] ?_))) (.register "Box" [⟨⟨2⟩, "T"⟩] {}))
    (.addBase ⟨3⟩ ⟨.tuple, ⟨1⟩⟩ ?_)
  · intro id hid
    rw [List.mem_singleton.mp hid]
    exact .inr (by decide +kernel)
  · exact Nat.le_refl 1

theorem box_inheritance_valid : box.classes.bases ⟨3⟩ = [⟨.tuple, ⟨1⟩⟩] ∧
    (∀ c, ∀ base ∈ box.classes.bases c, box.EdgeValid c base) ∧
      ∀ c, ¬ box.classes.Ancestor c c :=
  ⟨by decide +kernel, reachable_box.inheritance_valid⟩

end Supertypes.Hierarchy
