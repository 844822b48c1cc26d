import Supertypes.Proofs.Reachable

/-!
# Edits are atomic and local

An edit is done as a whole or not at all, and it changes one declaration.

- `Registry.SameTables`: no class, name or type parameter has come or gone.
- `Registry.BaseAdded` and `Registry.ShapeSet`: what one accepted edit changes, and that all else
  is as it was. Setting a shape may change the recursion marks of other classes, for a circle of
  shapes is closed or broken by the last of them: `ClassInfo.Remarked`.
- `Hierarchy.edits_atomic_local`: a refused edit leaves the classes as they were, and an accepted
  one has no more than its own effect.
-/

namespace Supertypes

/-- The declarations differ in their recursion marks at most, and only a tuple shape is
marked. -/
inductive ClassInfo.Remarked : ClassInfo → ClassInfo → Prop
  | unshaped {info : ClassInfo} (h : info.shape = none) : Remarked info info
  | shaped {info : ClassInfo} {shape : TupleShape} (h : info.shape = some shape)
    (recursive : Bool) :
    Remarked info
      { info with
        shape := some { shape with isRecursive := recursive }
        flags := { info.flags with recursiveTuple := recursive } }

namespace Registry

variable {r r' r'' : Registry} {c : ClassId}

/-- The same number of classes, so that the next one gets the same identity, the same index of
names and the same owners of type parameters. -/
structure SameTables (r r' : Registry) : Prop where
  size : r'.size = r.size
  names : r'.names = r.names
  owners : r'.owners = r.owners
  nextParam : r'.nextParam = r.nextParam

/-- `c` has got one more base edge, behind the others. -/
structure BaseAdded (r r' : Registry) (c : ClassId) (base : Instance) : Prop extends
    SameTables r r' where
  appended : ∃ info, r.get? c = some info ∧
    r'.get? c = some { info with bases := info.bases ++ [base] }
  others : ∀ d, d ≠ c → r'.get? d = r.get? d

/-- `c` has got a tuple shape, with its marks, and further base edges. -/
structure ShapeSet (r r' : Registry) (c : ClassId) (elements : List (Element TypeId))
    (edges : List Instance) : Prop extends SameTables r r' where
  shaped : ∃ info recursive, r.get? c = some info ∧ r'.get? c = some
    { info with
      bases := info.bases ++ edges
      shape := some { elements, isRecursive := recursive }
      flags := { info.flags with tupleShaped := true, recursiveTuple := recursive } }
  others : ∀ d, d ≠ c → Option.Rel ClassInfo.Remarked (r.get? d) (r'.get? d)

theorem SameTables.trans (h : SameTables r r') (h' : SameTables r' r'') : SameTables r r'' where
  size := h'.size.trans h.size
  names := h'.names.trans h.names
  owners := h'.owners.trans h.owners
  nextParam := h'.nextParam.trans h.nextParam

theorem sameTables_update (r : Registry) (c : ClassId) (f : ClassInfo → ClassInfo) :
    SameTables r (r.update c f) := by
  obtain ⟨n⟩ := c
  cases n with
  | zero => exact ⟨rfl, rfl, rfl, rfl⟩
  | succ n => exact ⟨List.length_modify .., rfl, rfl, rfl⟩

variable [Digest TypeData]

theorem sameTables_markRecursion (r : Registry) (types : Interner) :
    SameTables r (r.markRecursion types) :=
  ⟨List.length_mapIdx, rfl, rfl, rfl⟩

theorem remarked_markClass (r : Registry) (types : Interner) (c : ClassId) (info : ClassInfo) :
    info.Remarked (r.markClass types c info) := by
  rcases markClass_cases r types c info with ⟨hnone, heq⟩ | ⟨shape, recursive, hsome, heq⟩
  · rw [heq]
    exact .unshaped hnone
  · rw [heq]
    exact .shaped hsome recursive

/-- Marking touches nothing but marks. -/
theorem rel_markRecursion (r : Registry) (types : Interner) (d : ClassId) :
    Option.Rel ClassInfo.Remarked (r.get? d) ((r.markRecursion types).get? d) := by
  rw [get?_markRecursion]
  cases r.get? d with
  | none => exact .none
  | some info => exact .some (remarked_markClass r types d info)

omit [Digest TypeData] in
/-- An edge that is added before a shape is set stays, in front of those added with the shape. -/
theorem BaseAdded.shapeSet {base : Instance} {elements : List (Element TypeId)}
    {edges : List Instance} (hbase : r.BaseAdded r' c base)
    (hshape : r'.ShapeSet r'' c elements edges) : r.ShapeSet r'' c elements (base :: edges) := by
  obtain ⟨info, hinfo, hinfo'⟩ := hbase.appended
  obtain ⟨info', recursive, hsome, hinfo''⟩ := hshape.shaped
  refine ⟨hbase.toSameTables.trans hshape.toSameTables, ⟨info, recursive, hinfo, ?_⟩, ?_⟩
  · obtain rfl := Option.some.inj (hinfo'.symm.trans hsome)
    rw [hinfo'', List.append_assoc, List.singleton_append]
  · intro d hd
    rw [← hbase.others d hd]
    exact hshape.others d hd

end Registry

namespace Hierarchy

variable {h h' : Hierarchy} {c : ClassId}

theorem baseAdded_withBase {base : Instance} (hc : h.classes.contains c = true) :
    h.classes.BaseAdded (h.withBase c base).classes c base := by
  obtain ⟨info, hinfo⟩ := Registry.get?_of_contains hc
  refine ⟨Registry.sameTables_update h.classes c _, ⟨info, hinfo, ?_⟩, fun d hd => ?_⟩
  · unfold withBase
    rw [Registry.get?_update, hinfo, Option.map_some, if_pos rfl]
  · unfold withBase
    simp only [Registry.get?_update, if_neg hd, Option.map_id']

section

variable [Digest TypeData]

theorem shapeSet_withShape (hc : h.classes.contains c = true)
    (elements : List (Element TypeId)) :
    h.classes.ShapeSet (h.withShape c elements).classes c elements [] := by
  obtain ⟨info, hinfo⟩ := Registry.get?_of_contains hc
  have hmarks : ∀ d, Option.Rel ClassInfo.Remarked _ ((h.withShape c elements).classes.get? d) :=
    Registry.rel_markRecursion _ h.types
  simp only [Registry.get?_update] at hmarks
  refine ⟨(Registry.sameTables_update h.classes c _).trans
    (Registry.sameTables_markRecursion _ _), ?_, fun d hd => ?_⟩
  · -- the new shape is marked
    have hmark := hmarks c
    rw [hinfo, Option.map_some, if_pos rfl] at hmark
    generalize (h.withShape c elements).classes.get? c = new at hmark ⊢
    cases hmark with
    | some hmark =>
      cases hmark with
      | unshaped hnone => cases hnone
      | shaped hsome recursive =>
        obtain rfl := Option.some.inj hsome
        refine ⟨info, recursive, hinfo, ?_⟩
        rw [List.append_nil]
  · have hmark := hmarks d
    rwa [Option.map_congr (fun _ _ => if_neg hd), Option.map_id'] at hmark

omit [Digest TypeData] in
/-- A class is registered, or nothing happens. -/
theorem register_atomic {name : String} {params : List Param} {flags : ClassFlags}
    {e : HierarchyError} (hrun : (register name params flags).run.run h = (.error e, h')) :
    h'.classes = h.classes := by
  rcases register_cases h name params flags with ⟨p, owner, -, heq⟩ | ⟨-, heq⟩
  · rw [heq] at hrun
    rw [← (Prod.mk.inj hrun).2]
  · rw [heq] at hrun
    cases (Prod.mk.inj hrun).1

/-- A base edge is appended, or nothing happens. -/
theorem addBase_atomic_local (h : Hierarchy) (c : ClassId) (base : Instance) :
    (∀ e h', (addBase c base).run.run h = (.error e, h') → h'.classes = h.classes) ∧
    ∀ h', (addBase c base).run.run h = (.ok (), h') → h.classes.BaseAdded h'.classes c base := by
  rcases addBase_cases h c base with ⟨e, heq⟩ | ⟨ha, heq⟩
  · rw [heq]
    refine ⟨fun e' h' hrun => ?_, fun h' hrun => ?_⟩
    · rw [← (Prod.mk.inj hrun).2]
    · cases (Prod.mk.inj hrun).1
  · rw [heq]
    refine ⟨fun e h' hrun => ?_, fun h' hrun => ?_⟩
    · cases (Prod.mk.inj hrun).1
    · rw [← (Prod.mk.inj hrun).2]
      exact baseAdded_withBase ha.known

/-- A shape is set, with an edge to `tuple` if the class had no way there, or nothing happens. -/
theorem setTupleShape_atomic_local (h : Hierarchy) (c : ClassId)
    (elements : List (Element TypeId)) :
    (∀ e h', (setTupleShape c elements).run.run h = (.error e, h') → h'.classes = h.classes) ∧
    ∀ h', (setTupleShape c elements).run.run h = (.ok (), h') →
      h.classes.derives c .tuple = true ∧ h.classes.ShapeSet h'.classes c elements [] ∨
      h.classes.derives c .tuple = false ∧ ∃ edge, edge.head = .tuple ∧
        h.classes.ShapeSet h'.classes c elements [edge] := by
  rcases setTupleShape_cases h c elements with ⟨-, heq⟩ | ⟨hc, hder, heq⟩ | ⟨hder, ha, heq⟩ |
    ⟨-, -, -, e, heq⟩ <;> rw [heq]
  · refine ⟨fun e' h' hrun => ?_, fun h' hrun => ?_⟩
    · rw [← (Prod.mk.inj hrun).2]
    · cases (Prod.mk.inj hrun).1
  · refine ⟨fun e h' hrun => ?_, fun h' hrun => .inl ⟨hder, ?_⟩⟩
    · cases (Prod.mk.inj hrun).1
    · rw [← (Prod.mk.inj hrun).2]
      exact shapeSet_withShape hc elements
  · -- interning the joined items has left the classes alone
    refine ⟨fun e h' hrun => ?_, fun h' hrun => .inr ⟨hder, (h.joined elements).1, rfl, ?_⟩⟩
    · cases (Prod.mk.inj hrun).1
    · rw [← (Prod.mk.inj hrun).2]
      have hbase : h.classes.BaseAdded _ c (h.joined elements).1 := baseAdded_withBase ha.known
      exact hbase.shapeSet
        (shapeSet_withShape ((contains_withBase _ c _ c).trans ha.known) elements)
  · refine ⟨fun e' h' hrun => ?_, fun h' hrun => ?_⟩
    · rw [← (Prod.mk.inj hrun).2]
      rfl
    · cases (Prod.mk.inj hrun).1

/-- An edit that is refused leaves the classes as they were. One that adds a base appends it to
the bases of its class, and one that sets a tuple shape sets it for its class, which gets an edge
to `tuple` if there was no way there; both change nothing else but recursion marks. -/
theorem edits_atomic_local (h : Hierarchy) :
    (∀ name params flags e h', (register name params flags).run.run h = (.error e, h') →
      h'.classes = h.classes) ∧
    (∀ c base,
      (∀ e h', (addBase c base).run.run h = (.error e, h') → h'.classes = h.classes) ∧
      ∀ h', (addBase c base).run.run h = (.ok (), h') →
        h.classes.BaseAdded h'.classes c base) ∧
    ∀ c elements,
      (∀ e h', (setTupleShape c elements).run.run h = (.error e, h') → h'.classes = h.classes) ∧
      ∀ h', (setTupleShape c elements).run.run h = (.ok (), h') →
        h.classes.derives c .tuple = true ∧ h.classes.ShapeSet h'.classes c elements [] ∨
        h.classes.derives c .tuple = false ∧ ∃ edge, edge.head = .tuple ∧
          h.classes.ShapeSet h'.classes c elements [edge] :=
  ⟨fun _ _ _ _ _ hrun => register_atomic hrun, addBase_atomic_local h,
    setTupleShape_atomic_local h⟩

end

/-- `Box[T]` over `tuple[T]` does not share its parameter and does not become a base of `tuple`.
It takes an edge to `object` and a shape, for which it needs no further edge. -/
theorem box_edits_atomic_local :
    (∃ h', (register "Bag" [⟨⟨2⟩, "T"⟩] {}).run.run box = (.error (.paramTaken ⟨2⟩ ⟨3⟩), h') ∧
      h'.classes = box.classes) ∧
    (∃ h', (setTupleShape .tuple [.required .never]).run.run box =
        (.error (.inheritanceCycle .tuple .tuple), h') ∧ h'.classes = box.classes) ∧
    (∃ h', (addBase ⟨3⟩ (.bare .object)).run.run box = (.ok (), h') ∧
      box.classes.BaseAdded h'.classes ⟨3⟩ (.bare .object)) ∧
    ∃ h', (setTupleShape ⟨3⟩ [.required ⟨42⟩]).run.run box = (.ok (), h') ∧
      box.classes.ShapeSet h'.classes ⟨3⟩ [.required ⟨42⟩] [] := by
  obtain ⟨hregister, hbase, hshape⟩ := edits_atomic_local box
  have hrun {α : Type} {x : Edit α} {r : Except HierarchyError α} (hr : (x.run.run box).1 = r) :
      x.run.run box = (r, (x.run.run box).2) := Prod.ext hr rfl
  have htaken := hrun (x := register "Bag" [⟨⟨2⟩, "T"⟩] {})
    (r := .error (.paramTaken ⟨2⟩ ⟨3⟩)) (by decide +kernel)
  have hcycle := hrun (x := setTupleShape .tuple [.required .never])
    (r := .error (.inheritanceCycle .tuple .tuple)) (by decide +kernel)
  have hadded := hrun (x := addBase ⟨3⟩ (.bare .object)) (r := .ok ()) (by decide +kernel)
  have hset := hrun (x := setTupleShape ⟨3⟩ [.required ⟨42⟩]) (r := .ok ()) (by decide +kernel)
  have hderives : box.classes.derives ⟨3⟩ .tuple = true := by decide +kernel
  refine ⟨⟨_, htaken, hregister _ _ _ _ _ htaken⟩, ⟨_, hcycle, (hshape _ _).1 _ _ hcycle⟩,
    ⟨_, hadded, (hbase _ _).2 _ hadded⟩, _, hset, ?_⟩
  rcases (hshape _ _).2 _ hset with ⟨-, hset⟩ | ⟨hnot, -⟩
  · exact hset
  · rw [hderives] at hnot
    cases hnot

end Hierarchy

end Supertypes
