import Supertypes.Proofs.Reachable
import Supertypes.Proofs.ShapeCycles

/-!
# Recursion marks

A tuple shape is marked as recursive or not, and its class carries the same mark. The marks of
all shapes are set anew whenever a shape is declared.

- `Hierarchy.ShapeMentions`: an element of the shape of a class mentions an instance of another
  one.
- `Registry.marks`: a tuple shape and the mark that its class carries.
- `Hierarchy.MarksRight`: the marks of all shapes agree and tell which shapes lead back to their
  classes. `Hierarchy.marksRight_markRecursion` says that marking makes them right, and
  `Hierarchy.MarksRight.of_same` that steps without marking leave them so.
- `Hierarchy.Reachable.recursion_marks`: in a reachable hierarchy the marks are right.
-/

namespace Supertypes

open Relation

/-! ## Marks in a registry -/

namespace Registry

variable {r r' : Registry} {c : ClassId}

/-- The tuple shape of a class, and the mark that the class carries beside it. -/
def marks (r : Registry) (c : ClassId) : Option (TupleShape × Bool) :=
  (r.get? c).bind fun info => info.shape.map fun shape => (shape, info.flags.recursiveTuple)

/-- Number of classes with a tuple shape. -/
def shapeCount (r : Registry) : Nat :=
  r.classes.countP fun info => info.shape.isSome

theorem shape?_eq_map_marks (r : Registry) (c : ClassId) :
    r.shape? c = (r.marks c).map Prod.fst := by
  unfold shape? marks
  cases r.get? c with
  | none => rfl
  | some info =>
    show info.shape = (info.shape.map _).map Prod.fst
    rw [Option.map_map]
    exact Option.map_id'.symm

theorem marks_of_get? {info : ClassInfo} {shape : TupleShape} (hinfo : r.get? c = some info)
    (hshape : info.shape = some shape) : r.marks c = some (shape, info.flags.recursiveTuple) := by
  unfold marks
  rw [hinfo, Option.bind_some, hshape]
  rfl

/-- A new class has no shape to be marked. -/
theorem marks_add {info : ClassInfo} (hinfo : info.shape = none) (c : ClassId) :
    (r.add info).2.marks c = r.marks c := by
  unfold marks
  rcases get?_add_cases r info c with ⟨hold, hnew⟩ | heq
  · rw [hold, hnew, Option.bind_some, hinfo]
    rfl
  · rw [heq]

theorem marks_update {f : ClassInfo → ClassInfo}
    (hf : ∀ info, (f info).shape = info.shape ∧ (f info).flags = info.flags) (r : Registry)
    (c d : ClassId) : (r.update c f).marks d = r.marks d := by
  unfold marks
  rw [get?_update, Option.bind_map]
  refine Option.bind_congr fun info _ => ?_
  show (if d = c then f info else info).shape.map _ = _
  split
  · rw [(hf info).1, (hf info).2]
  · rfl

variable [Digest TypeData]

/-- Marking sets both marks to the outcome of a search. -/
theorem marks_markRecursion (r : Registry) (types : Interner) (c : ClassId) :
    (r.markRecursion types).marks c = (r.shape? c).map fun shape =>
      ({ shape with isRecursive := r.isRecursiveShape types c }, r.isRecursiveShape types c) := by
  unfold marks shape?
  rw [get?_markRecursion]
  cases r.get? c with
  | none => rfl
  | some info =>
    rw [Option.map_some, Option.bind_some, Option.bind_some]
    unfold markClass
    cases hshape : info.shape with
    | none =>
      dsimp only
      rw [hshape]
      rfl
    | some shape => rfl

/-- Marks do not matter to what a shape mentions. -/
theorem leads_markRecursion {types types' : Interner} {d : ClassId} :
    (r.markRecursion types).Leads types' c d ↔ r.Leads types' c d := by
  unfold Leads
  rw [shape?_markRecursion_eq]
  constructor
  · rintro ⟨shape, hshape, hd⟩
    obtain ⟨old, hold, rfl⟩ := Option.map_eq_some_iff.mp hshape
    exact ⟨old, hold, hd⟩
  · rintro ⟨shape, hshape, hd⟩
    rw [hshape]
    exact ⟨_, rfl, hd⟩

omit [Digest TypeData] in
theorem fewShapes_congr (h : ∀ c, r'.isShaped c = r.isShaped c) : r'.FewShapes ↔ r.FewShapes := by
  unfold FewShapes
  simp only [h]

theorem isShaped_markRecursion (types : Interner) (c : ClassId) :
    (r.markRecursion types).isShaped c = r.isShaped c := by
  unfold isShaped
  rw [shape?_markRecursion_eq, Option.isSome_map]

omit [Digest TypeData] in
/-- Classes with a shape are counted by their numbers. -/
theorem fewShapes_of_shapeCount (hcount : r.shapeCount ≤ Limits.shapes) : r.FewShapes := by
  intro cs hnodup hshaped
  -- the classes with a shape, by number
  let shaped := (r.classes.zipIdx.filter fun entry => entry.1.shape.isSome).map
    fun entry => (⟨entry.2 + 1⟩ : ClassId)
  have hsub : cs ⊆ shaped := by
    intro c hc
    have hsome := hshaped c hc
    obtain ⟨n⟩ := c
    cases n with
    | zero => cases hsome
    | succ n =>
      obtain ⟨shape, hshape⟩ := Option.isSome_iff_exists.mp hsome
      obtain ⟨info, hinfo, hshape⟩ := Option.bind_eq_some_iff.mp hshape
      refine List.mem_map.mpr ⟨(info, n), List.mem_filter.mpr ⟨?_, ?_⟩, rfl⟩
      · exact List.mem_zipIdx_iff_getElem?.mpr hinfo
      · exact Option.isSome_iff_exists.mpr ⟨shape, hshape⟩
  have hlength : shaped.length = r.shapeCount := by
    unfold shapeCount
    rw [List.length_map, ← List.countP_eq_length_filter]
    conv_rhs => rw [← List.zipIdx_map_fst 0 r.classes, List.countP_map]
    rfl
  exact (hnodup.subperm hsub).length_le.trans (hlength.trans_le hcount)

end Registry

/-! ## Marks along the way of a hierarchy -/

namespace Hierarchy

section

variable [Digest TypeData] {h h' : Hierarchy} {c d : ClassId}

/-- The tuple shape of `c` mentions an instance of `d`, at whatever depth of an element. -/
def ShapeMentions (h : Hierarchy) (c d : ClassId) : Prop :=
  ∃ shape, h.classes.shape? c = some shape ∧ ∃ e ∈ shape.elements, ∃ x i,
    h.types.Occurs e.item x ∧ h.types.lookup x = some (.inst i) ∧ i.head = d

/-- What the search for recursive shapes follows. -/
theorem leads_eq_shapeMentions (h : Hierarchy) :
    h.classes.Leads h.types = h.ShapeMentions := by
  funext c d
  unfold Registry.Leads ShapeMentions Registry.mentioned
  simp only [List.mem_flatMap, Interner.mem_classes_iff]

/-- The marks of a shape agree, and tell whether the shape leads back to its class. With more
shapes than the search goes deep they may be set though it does not. -/
structure MarkRight (h : Hierarchy) (c : ClassId) (shape : TupleShape) (flag : Bool) : Prop where
  agree : shape.isRecursive = flag
  of_cycle : TransGen h.ShapeMentions c c → shape.isRecursive = true
  cycle : h.classes.FewShapes → shape.isRecursive = true → TransGen h.ShapeMentions c c

/-- All marks are right. -/
def MarksRight (h : Hierarchy) : Prop :=
  ∀ c shape flag, h.classes.marks c = some (shape, flag) → h.MarkRight c shape flag

/-- Whatever the marks were, marking makes them right. -/
theorem marksRight_markRecursion (r : Registry) (types : Interner) :
    ({ types, classes := r.markRecursion types } : Hierarchy).MarksRight := by
  intro c shape flag hmarks
  have hmentions : ({ types, classes := r.markRecursion types } : Hierarchy).ShapeMentions =
      r.Leads types := by
    rw [← leads_eq_shapeMentions]
    funext a b
    exact propext Registry.leads_markRecursion
  have hfew := Registry.fewShapes_congr (r := r) fun c => Registry.isShaped_markRecursion types c
  change (r.markRecursion types).marks c = _ at hmarks
  rw [Registry.marks_markRecursion] at hmarks
  obtain ⟨old, -, heq⟩ := Option.map_eq_some_iff.mp hmarks
  obtain ⟨rfl, rfl⟩ := Prod.mk.inj heq
  refine ⟨rfl, fun hcycle => ?_, fun hfew' hrecursive => ?_⟩
  · rw [hmentions] at hcycle
    exact Registry.isRecursiveShape_of_leads_back hcycle
  · rw [hmentions]
    exact (Registry.isRecursiveShape_iff (hfew.mp hfew') types c).mp hrecursive

/-- Steps that leave shapes and marks alone leave them right: what has been interned still
mentions what it did. -/
theorem MarksRight.of_same (hm : h.MarksRight) (hs : h.Sound) (hle : h.types ≤ h'.types)
    (hmarks : ∀ c, h'.classes.marks c = h.classes.marks c) : h'.MarksRight := by
  have hshape : ∀ c, h'.classes.shape? c = h.classes.shape? c := by
    intro c
    rw [Registry.shape?_eq_map_marks, Registry.shape?_eq_map_marks, hmarks]
  have hmentions : h'.ShapeMentions = h.ShapeMentions := by
    funext c d
    unfold ShapeMentions
    rw [hshape]
    refine propext (exists_congr fun shape => and_congr_right fun hsome => ?_)
    refine exists_congr fun e => and_congr_right fun he => ?_
    have hissued := hs.shapes_issued c shape hsome e he
    refine exists_congr fun x => exists_congr fun i => ?_
    rw [hs.wellFormed.occurs_iff_of_le hle hissued]
    refine and_congr_right fun hx => ?_
    rw [(hs.wellFormed.issued_of_occurs hissued hx).lookup_eq hle]
  have hfew : h'.classes.FewShapes ↔ h.classes.FewShapes :=
    Registry.fewShapes_congr fun c => congrArg Option.isSome (hshape c)
  intro c shape flag hsome
  rw [hmarks] at hsome
  obtain ⟨hagree, hof, hcycle⟩ := hm c shape flag hsome
  rw [← hmentions, ← hfew] at *
  exact ⟨hagree, hof, hcycle⟩

theorem MarksRight.initial : ({} : Hierarchy).MarksRight := by
  intro c shape flag hmarks
  have hshape := Registry.shape?_eq_map_marks .builtin c
  rw [Registry.shape?_builtin, show Registry.builtin.marks c = _ from hmarks] at hshape
  cases hshape

omit [Digest TypeData] in
theorem marks_withBase (h : Hierarchy) (c : ClassId) (base : Instance) (d : ClassId) :
    (h.withBase c base).classes.marks d = h.classes.marks d :=
  Registry.marks_update (f := fun info => { info with bases := info.bases ++ [base] })
    (fun _ => ⟨rfl, rfl⟩) h.classes c d

/-- What one step does to the marks. -/
theorem Change.marksRight (hs : h.Sound) (hm : h.MarksRight) (hchange : Change h h') :
    h'.MarksRight := by
  -- the types grow only, so what the shapes mention stays the same
  have hle : h.types ≤ h'.types := (hchange.extends_sound hs).1.types
  cases hchange with
  | intern types hbuilds => exact hm.of_same hs hle fun _ => rfl
  | freshParam name => exact hm.of_same hs hle fun _ => rfl
  | register name params flags =>
    rcases register_cases h name params flags with ⟨p, owner, -, hrun⟩ | ⟨-, hrun⟩
    · rw [hrun]
      exact hm
    · rw [hrun] at hle ⊢
      exact hm.of_same hs hle (Registry.marks_add rfl)
  | addBase c base hbase =>
    rcases addBase_cases h c base with ⟨e, hrun⟩ | ⟨-, hrun⟩
    · rw [hrun]
      exact hm
    · rw [hrun] at hle ⊢
      exact hm.of_same hs hle (marks_withBase h c base)
  | setTupleShape c elements hitems =>
    rcases setTupleShape_cases h c elements with ⟨-, hrun⟩ | ⟨-, -, hrun⟩ | ⟨-, -, hrun⟩ |
      ⟨-, -, -, e, hrun⟩
    · rw [hrun]
      exact hm
    · rw [hrun]
      exact marksRight_markRecursion _ h.types
    · rw [hrun]
      exact marksRight_markRecursion _ _
    · -- the joined items have been interned, and nothing else has changed
      rw [hrun] at hle ⊢
      exact hm.of_same hs hle fun _ => rfl

theorem Reachable.marksRight (hr : Reachable h) : h.MarksRight := by
  induction hr with
  | initial => exact MarksRight.initial
  | next hr hchange ih => exact hchange.marksRight hr.sound ih

/-- In a reachable hierarchy the shape of a class and the class carry the same mark. It is set if
the shape leads back to the class through one or more shapes, and if there are no more shapes
than the search for a way back goes deep, it is set just then. -/
theorem Reachable.recursion_marks (hr : Reachable h) {info : ClassInfo} {shape : TupleShape}
    (hinfo : h.classes.get? c = some info) (hshape : info.shape = some shape) :
    shape.isRecursive = info.flags.recursiveTuple ∧
    (TransGen h.ShapeMentions c c → shape.isRecursive = true) ∧
    (h.classes.shapeCount ≤ Limits.shapes →
      (shape.isRecursive = true ↔ TransGen h.ShapeMentions c c)) := by
  have hright := hr.marksRight c shape _ (Registry.marks_of_get? hinfo hshape)
  refine ⟨hright.agree, hright.of_cycle, fun hcount => ?_⟩
  exact ⟨hright.cycle (Registry.fewShapes_of_shapeCount hcount), hright.of_cycle⟩

end

/-- `Ping` over `(Pong,)`, `Pong` over `(*Ping,)`, and `Match` over `(Ping, Pong)`. -/
def rally : Hierarchy :=
  let types := ((Interner.intern (.inst (.bare ⟨3⟩))).run {}).2
  let types := ((Interner.intern (.inst (.bare ⟨4⟩))).run types).2
  let h := ((Hierarchy.register "Ping" [] {}).run.run { types }).2
  let h := ((Hierarchy.register "Pong" [] {}).run.run h).2
  let h := ((Hierarchy.register "Match" [] {}).run.run h).2
  let h := ((Hierarchy.setTupleShape ⟨3⟩ [.required ⟨36⟩]).run.run h).2
  let h := ((Hierarchy.setTupleShape ⟨4⟩ [.rest ⟨31⟩]).run.run h).2
  ((Hierarchy.setTupleShape ⟨5⟩ [.required ⟨31⟩, .required ⟨36⟩]).run.run h).2

theorem reachable_rally : Reachable rally := by
  refine .next (.next (.next (.next (.next (.next (.next (.next .initial
    (.intern _ (.data (.inst (.bare ⟨3⟩)) (Nat.le_refl 0))))
    (.intern _ (.data (.inst (.bare ⟨4⟩)) (Nat.zero_le _))))
    (.register "Ping" [] {})) (.register "Pong" [] {})) (.register "Match" [] {}))
    (.setTupleShape ⟨3⟩ [.required ⟨36⟩] ?_)) (.setTupleShape ⟨4⟩ [.rest ⟨31⟩] ?_))
    (.setTupleShape ⟨5⟩ [.required ⟨31⟩, .required ⟨36⟩] ?_)
  all_goals decide +kernel

/-- The shapes of `Ping` and `Pong` close a circle, which the shape of `Match` leads to but is
not part of. -/
theorem rally_recursion_marks :
    (∃ info shape, rally.classes.get? ⟨3⟩ = some info ∧ info.shape = some shape ∧
      shape.isRecursive = true ∧ info.flags.recursiveTuple = true ∧
      TransGen rally.ShapeMentions ⟨3⟩ ⟨3⟩) ∧
    ∃ info shape, rally.classes.get? ⟨5⟩ = some info ∧ info.shape = some shape ∧
      shape.isRecursive = false ∧ info.flags.recursiveTuple = false ∧
      ¬ TransGen rally.ShapeMentions ⟨5⟩ ⟨5⟩ := by
  have hcount : rally.classes.shapeCount ≤ Limits.shapes := by decide +kernel
  have hping : rally.classes.shape? ⟨3⟩ = some ⟨[.required ⟨36⟩], true⟩ := by decide +kernel
  have hmatch : rally.classes.shape? ⟨5⟩ = some ⟨[.required ⟨31⟩, .required ⟨36⟩], false⟩ := by
    decide +kernel
  obtain ⟨ping, hget, hshape⟩ := Option.bind_eq_some_iff.mp hping
  obtain ⟨match', hget', hshape'⟩ := Option.bind_eq_some_iff.mp hmatch
  obtain ⟨hflag, -, hcycle⟩ := reachable_rally.recursion_marks hget hshape
  obtain ⟨hflag', hof, -⟩ := reachable_rally.recursion_marks hget' hshape'
  refine ⟨⟨ping, _, hget, hshape, rfl, hflag.symm, (hcycle hcount).mp rfl⟩,
    match', _, hget', hshape', rfl, hflag'.symm, fun hback => ?_⟩
  cases hof hback

end Hierarchy

end Supertypes
