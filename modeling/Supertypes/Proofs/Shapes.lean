import Supertypes.Proofs.Expansion
import Supertypes.Proofs.Reachable

/-!
# Parameters in tuple shapes

- `Hierarchy.ShapeOwn`: the elements of a shape mention no parameters but those of their class.
- `Hierarchy.ShapeChecked`: the calls of `Hierarchy.setTupleShape` that cannot store anything
  else. A shape is not looked at itself. What is checked is the edge to the tuple class over the
  joined elements, if there has to be one, and the join may have lost what the elements mention.
- `Hierarchy.Reachable.shape_provenance`: every shape has been stored by a successful call,
  checked or not.
- `Hierarchy.ShapeOwn.expand_ground`: expanding such a shape for an instance without parameters
  leaves none.
-/

namespace Supertypes.Hierarchy

open Interner Relation

variable {h h' : Hierarchy} {c : ClassId} {elements : List (Element TypeId)}

/-! ## Own parameters -/

section

variable [Digest TypeData]

/-- The elements mention no parameters but those of `c`. -/
def ShapeOwn (h : Hierarchy) (c : ClassId) (elements : List (Element TypeId)) : Prop :=
  ∀ e ∈ elements, ∀ p, h.types.Mentions e.item p → ∃ q ∈ h.classes.params c, q.id = p.id

/-- Later steps change nothing about it. -/
theorem shapeOwn_iff_of_extends (hext : Extends h h') (hwf : h.types.WellFormed)
    (hitems : ∀ e ∈ elements, h.types.Issued e.item) (hc : h.classes.contains c = true) :
    h'.ShapeOwn c elements ↔ h.ShapeOwn c elements := by
  unfold ShapeOwn
  rw [hext.params c hc]
  refine forall₂_congr fun e he => forall_congr' fun p => ?_
  rw [hwf.mentions_iff_of_le hext.types (hitems e he)]

/-- The union of the items of a shape. -/
def join (h : Hierarchy) (elements : List (Element TypeId)) : TypeId :=
  ((union (elements.map Element.item)).run h.types).1

/-- The shape is own, or the call is refused, or it adds an edge that mentions all that the
elements mention. -/
def ShapeChecked (h : Hierarchy) (c : ClassId) (elements : List (Element TypeId)) : Prop :=
  h.ShapeOwn c elements ∨ h.classes.contains c = false ∨
    h.classes.derives c .tuple = false ∧
      (h.classes.wouldCycle c .tuple = true ∨ (h.join elements).isIntrinsic = false)

theorem issued_items (hitems : ∀ e ∈ elements, h.types.Issued e.item) :
    ∀ id ∈ elements.map Element.item, h.types.Issued id := by
  intro id hid
  obtain ⟨e, he, rfl⟩ := List.mem_map.mp hid
  exact hitems e he

/-- Unless it is intrinsic the join mentions just what the elements mention. -/
theorem mentions_join_iff (hwf : h.types.WellFormed)
    (hitems : ∀ e ∈ elements, h.types.Issued e.item) {types : Interner}
    (hle : ((union (elements.map Element.item)).run h.types).2 ≤ types) {p : Param} :
    types.Mentions (h.join elements) p ↔
      (h.join elements).isIntrinsic = false ∧ ∃ e ∈ elements, h.types.Mentions e.item p := by
  have hunion := hwf.union_mentions (issued_items hitems)
  have hlater := hunion.wellFormed.mentions_iff_of_le hle hunion.post.1 (p := p)
  constructor
  · intro hp
    constructor
    · rw [Bool.eq_false_iff]
      exact fun hintrinsic => not_mentions_of_intrinsic hintrinsic hp
    · obtain ⟨id, hid, hp⟩ := hunion.post.2 p (hlater.mp hp)
      obtain ⟨e, he, rfl⟩ := List.mem_map.mp hid
      exact ⟨e, he, hp⟩
  · rintro ⟨huser, e, he, hp⟩
    exact hlater.mpr (hwf.mentions_union (issued_items hitems) huser (List.mem_map_of_mem he) hp)

/-- The edge over the joined items may be added just if no cycle is in the way and the join
mentions own parameters only. -/
theorem admits_joined_iff (hs : h.Sound) (hitems : ∀ e ∈ elements, h.types.Issued e.item)
    (hc : h.classes.contains c = true) :
    (h.joined elements).2.Admits c (h.joined elements).1 ↔
      h.classes.wouldCycle c .tuple = false ∧
        ((h.join elements).isIntrinsic = true ∨ h.ShapeOwn c elements) := by
  have hfallback := repeatable_tupleFallback hs.wellFormed .tuple hitems
  obtain ⟨hhead, -, hargs, hle⟩ := hfallback.post
  have hhead' : (h.joined elements).1.head = .tuple := hhead
  have hargs' : (h.joined elements).2.types.args (h.joined elements).1 = [h.join elements] := hargs
  -- the one argument of the edge is the join
  have hmentions : ∀ p, (h.joined elements).2.types.Mentions (h.join elements) p ↔
      (h.join elements).isIntrinsic = false ∧ ∃ e ∈ elements, h.types.Mentions e.item p :=
    fun p => mentions_join_iff hs.wellFormed hitems hle
  constructor
  · intro ha
    refine ⟨hhead' ▸ ha.no_cycle, ?_⟩
    cases huser : (h.join elements).isIntrinsic with
    | true => exact .inl rfl
    | false =>
      refine .inr fun e he p hp => ?_
      refine ha.own (h.join elements) ?_ p ((hmentions p).mpr ⟨huser, e, he, hp⟩)
      rw [hargs']
      exact List.mem_singleton_self _
  · rintro ⟨hcycle, hown⟩
    refine {
      registered := hhead'.symm ▸ hs.tuple_unary.1
      arity := ?_
      own := ?_
      known := hc
      no_cycle := hhead'.symm ▸ hcycle }
    · rw [hargs', hhead']
      exact hs.tuple_unary.2.symm
    · intro arg harg p hp
      rw [hargs'] at harg
      obtain rfl := List.mem_singleton.mp harg
      obtain ⟨huser, e, he, hp⟩ := (hmentions p).mp hp
      rcases hown with hintrinsic | hown
      · rw [huser] at hintrinsic
        cases hintrinsic
      · exact hown e he p hp

/-- The calls that store an own shape or none are those that are checked. -/
theorem setTupleShape_own_iff (hs : h.Sound) (hitems : ∀ e ∈ elements, h.types.Issued e.item) :
    (((setTupleShape c elements).run.run h).1 = .ok () → h.ShapeOwn c elements) ↔
      h.ShapeChecked c elements := by
  unfold ShapeChecked
  rcases setTupleShape_cases h c elements with ⟨hc, hrun⟩ | ⟨hc, hder, hrun⟩ | ⟨hder, ha, hrun⟩ |
    ⟨hc, hder, ha, e, hrun⟩
  · rw [hrun]
    exact ⟨fun _ => .inr (.inl hc), fun _ hok => nomatch hok⟩
  · rw [hrun]
    -- no edge is added, and so nothing has been checked
    refine ⟨fun hown => .inl (hown rfl), ?_⟩
    rintro (hown | hunknown | ⟨hder', -⟩) -
    · exact hown
    · rw [hc] at hunknown
      cases hunknown
    · rw [hder] at hder'
      cases hder'
  · -- the edge is added, so that the join mentions own parameters only
    obtain ⟨hcycle, hown⟩ := (admits_joined_iff hs hitems ha.known).mp ha
    rw [hrun]
    refine ⟨fun hown => .inl (hown rfl), ?_⟩
    rintro (hown' | hunknown | ⟨-, hcycle' | huser⟩) -
    · exact hown'
    · rw [show h.classes.contains c = true from ha.known] at hunknown
      cases hunknown
    · rw [hcycle] at hcycle'
      cases hcycle'
    · refine hown.resolve_left ?_
      rw [huser]
      exact Bool.false_ne_true
  · rw [admits_joined_iff hs hitems hc] at ha
    rw [hrun]
    refine ⟨fun _ => ?_, fun _ hok => nomatch hok⟩
    -- the edge is refused for a cycle, or for what the join mentions
    cases hcycle : h.classes.wouldCycle c .tuple with
    | true => exact .inr (.inr ⟨hder, .inl rfl⟩)
    | false =>
      refine .inr (.inr ⟨hder, .inr (Bool.eq_false_iff.mpr fun hintrinsic => ha ⟨hcycle, ?_⟩)⟩)
      exact .inl hintrinsic

/-! ## Where shapes come from -/

/-- A step keeps the elements of a shape, or it is the call that stores them. -/
theorem Change.shape_cases {shape : TupleShape} (hchange : Change h h')
    (hshape : h'.classes.shape? c = some shape) :
    (∃ old, h.classes.shape? c = some old ∧ old.elements = shape.elements) ∨
      (∀ e ∈ shape.elements, h.types.Issued e.item) ∧ h.classes.contains c = true ∧
        (Hierarchy.setTupleShape c shape.elements).run.run h = (.ok (), h') := by
  cases hchange with
  | intern types _ => exact .inl ⟨shape, hshape, rfl⟩
  | freshParam name => exact .inl ⟨shape, hshape, rfl⟩
  | register name params flags =>
    rcases register_cases h name params flags with ⟨p, owner, -, hrun⟩ | ⟨-, hrun⟩
    · rw [hrun] at hshape
      exact .inl ⟨shape, hshape, rfl⟩
    · rw [hrun] at hshape
      exact .inl ⟨shape, (Registry.shape?_add rfl c).symm.trans hshape, rfl⟩
  | addBase d base _ =>
    rcases addBase_cases h d base with ⟨e, hrun⟩ | ⟨-, hrun⟩
    · rw [hrun] at hshape
      exact .inl ⟨shape, hshape, rfl⟩
    · rw [hrun] at hshape
      exact .inl ⟨shape, shape?_withBase hshape, rfl⟩
  | setTupleShape d elements hitems =>
    rcases setTupleShape_cases h d elements with ⟨-, hrun⟩ | ⟨hd, -, hrun⟩ | ⟨-, ha, hrun⟩ |
      ⟨-, -, -, e, hrun⟩
    · rw [hrun] at hshape
      exact .inl ⟨shape, hshape, rfl⟩
    · rw [hrun] at hshape ⊢
      -- the shape is the new one, or that of another class or an older one
      rcases shape?_withShape hshape with ⟨rfl, rfl⟩ | ⟨old, hold, heq⟩
      · exact .inr ⟨hitems, hd, hrun⟩
      · exact .inl ⟨old, hold, heq.symm⟩
    · rw [hrun] at hshape ⊢
      rcases shape?_withShape hshape with ⟨rfl, rfl⟩ | ⟨old, hold, heq⟩
      · exact .inr ⟨hitems, ha.known, hrun⟩
      · exact .inl ⟨old, shape?_withBase hold, heq.symm⟩
    · rw [hrun] at hshape
      exact .inl ⟨shape, hshape, rfl⟩

/-- Every shape has been stored by a successful call at some time. -/
theorem Reachable.shape_provenance {shape : TupleShape} (hr : Reachable h)
    (hshape : h.classes.shape? c = some shape) :
    ∃ h₀ h₁, Reachable h₀ ∧ (∀ e ∈ shape.elements, h₀.types.Issued e.item) ∧
      h₀.classes.contains c = true ∧
      (setTupleShape c shape.elements).run.run h₀ = (.ok (), h₁) ∧ ReflTransGen Change h₁ h := by
  induction hr generalizing shape with
  | initial =>
    rw [Registry.shape?_builtin] at hshape
    cases hshape
  | @next h h' hr hchange ih =>
    rcases hchange.shape_cases hshape with ⟨old, hold, heq⟩ | ⟨hitems, hc, hrun⟩
    · obtain ⟨h₀, h₁, hr₀, hitems, hc, hrun, hlater⟩ := ih hold
      rw [heq] at hitems hrun
      exact ⟨h₀, h₁, hr₀, hitems, hc, hrun, hlater.tail hchange⟩
    · exact ⟨h, h', hr, hitems, hc, hrun, .refl⟩

theorem extends_of_later (hs : h.Sound) (hlater : ReflTransGen Change h h') : Extends h h' := by
  suffices hboth : Extends h h' ∧ h'.Sound from hboth.1
  induction hlater with
  | refl => exact ⟨.refl h, hs⟩
  | tail _ hchange ih =>
    obtain ⟨hext, hs'⟩ := hchange.extends_sound ih.2
    exact ⟨ih.1.trans hext, hs'⟩

/-! ## Expansion -/

/-- Expanding an own shape for an instance without parameters leaves none. -/
theorem ShapeOwn.expand_ground (hown : h.ShapeOwn c elements) (hwf : h.types.WellFormed)
    (hitems : ∀ e ∈ elements, h.types.Issued e.item) {i : Instance} (hhead : i.head = c)
    (hlen : (h.classes.params c).length ≤ (h.types.args i).length)
    (hground : ∀ arg ∈ h.types.args i, ∀ p, ¬ h.types.Mentions arg p) :
    Repeatable h.types ((h.mapper.environment h.types i).applyElements elements) fun es t =>
      ∀ e ∈ es, ∀ p, ¬ t.Mentions e.item p := by
  have hs : (h.mapper.environment h.types i).Issued h.types :=
    Substitution.issued_ofArgs fun _ hid => hwf.issued_of_mem_typeList hid
  refine (Substitution.repeatable_applyElements hwf hs hitems).mono ?_
  intro es t _ _ _ hes e' he' p hp
  obtain ⟨e, he, -, hleaves⟩ := exists_of_mem_right hes he'
  obtain ⟨q, hq, hleft⟩ := hleaves p hp
  -- `q` is a parameter of the class, and so it is bound to an argument
  obtain ⟨own, hmem, hid⟩ := hown e he q hq
  rw [← hhead] at hmem hlen
  obtain ⟨value, hvalue⟩ := Option.isSome_iff_exists.mp
    (Substitution.get?_ofArgs_isSome hlen hmem)
  have hbound : (h.mapper.environment h.types i).get? q.id = some value := hid ▸ hvalue
  rw [hbound] at hleft
  exact hground value (Substitution.mem_of_get?_ofArgs hbound) p hleft

/-- A call stores an own shape, if any, just if it is checked. Every shape in a reachable
hierarchy comes from such a call, and if it is own, expanding it for an instance without
parameters leaves none. -/
theorem Reachable.tuple_shapes (hr : Reachable h) :
    (∀ c elements, (∀ e ∈ elements, h.types.Issued e.item) →
      ((((setTupleShape c elements).run.run h).1 = .ok () → h.ShapeOwn c elements) ↔
        h.ShapeChecked c elements)) ∧
    (∀ c shape, h.classes.shape? c = some shape →
      (∃ h₀ h₁, Reachable h₀ ∧ (setTupleShape c shape.elements).run.run h₀ = (.ok (), h₁) ∧
        ReflTransGen Change h₁ h ∧
        (h.ShapeOwn c shape.elements ↔ h₀.ShapeChecked c shape.elements)) ∧
      (h.ShapeOwn c shape.elements → ∀ i, i.head = c →
        (h.classes.params c).length ≤ (h.types.args i).length →
        (∀ arg ∈ h.types.args i, ∀ p, ¬ h.types.Mentions arg p) →
        let expanded :=
          ((h.mapper.environment h.types i).applyElements shape.elements).run h.types
        ∀ e ∈ expanded.1, ∀ p, ¬ expanded.2.Mentions e.item p)) := by
  refine ⟨fun c elements hitems => setTupleShape_own_iff hr.sound hitems, ?_⟩
  intro c shape hshape
  constructor
  · obtain ⟨h₀, h₁, hr₀, hitems, hc, hrun, hlater⟩ := hr.shape_provenance hshape
    refine ⟨h₀, h₁, hr₀, hrun, hlater, ?_⟩
    -- whether the shape is own has been settled by the call
    have hcall := (Change.setTupleShape c shape.elements hitems).extends_sound hr₀.sound
    rw [hrun] at hcall
    have hext := hcall.1.trans (extends_of_later hcall.2 hlater)
    rw [shapeOwn_iff_of_extends hext hr₀.sound.wellFormed hitems hc,
      ← setTupleShape_own_iff hr₀.sound hitems, hrun]
    exact ⟨fun hown _ => hown, fun hown => hown rfl⟩
  · intro hown i hhead hlen hground
    exact (hown.expand_ground hr.sound.wellFormed (hr.sound.shapes_issued c shape hshape) hhead hlen
      hground).post

end

theorem box_own_shape :
    (((setTupleShape ⟨3⟩ [.required ⟨42⟩]).run.run box).1 = .ok () →
        box.ShapeOwn ⟨3⟩ [.required ⟨42⟩]) ↔
      box.ShapeChecked ⟨3⟩ [.required ⟨42⟩] :=
  reachable_box.tuple_shapes.1 ⟨3⟩ [.required ⟨42⟩] fun e he => by
    rw [List.mem_singleton.mp he]
    exact .inr (by decide +kernel)

/-- `Box[T]` over `tuple[T]` beside `Other[U]`. -/
def boxAndOther : Hierarchy :=
  let types := ((Interner.param ⟨⟨3⟩, "U"⟩).run box.types).2
  ((Hierarchy.register "Other" [⟨⟨3⟩, "U"⟩] {}).run.run { box with types }).2

/-- `Box` is a tuple already, so its shape `(U)` is not checked. -/
def foreignBox : Hierarchy :=
  ((Hierarchy.setTupleShape ⟨3⟩ [.required ⟨46⟩]).run.run boxAndOther).2

theorem reachable_foreignBox : Reachable foreignBox := by
  refine .next (.next (.next reachable_box (.intern _ (.data (.param ⟨⟨3⟩, "U"⟩) trivial)))
    (.register "Other" [⟨⟨3⟩, "U"⟩] {})) (.setTupleShape ⟨3⟩ [.required ⟨46⟩] ?_)
  intro e he
  rw [List.mem_singleton.mp he]
  exact .inr (by decide +kernel)

/-- The shape that is stored mentions the parameter of the other class. -/
theorem foreignBox_shape_foreign :
    Reachable foreignBox ∧
    ((setTupleShape ⟨3⟩ [.required ⟨46⟩]).run.run boxAndOther).1 = .ok () ∧
    (foreignBox.classes.shape? ⟨3⟩).map TupleShape.elements = some [.required ⟨46⟩] ∧
    foreignBox.classes.params ⟨3⟩ = [⟨⟨2⟩, "T"⟩] ∧
    ¬ foreignBox.ShapeOwn ⟨3⟩ [.required ⟨46⟩] := by
  have hparams : foreignBox.classes.params ⟨3⟩ = [⟨⟨2⟩, "T"⟩] := by decide +kernel
  refine ⟨reachable_foreignBox, by decide +kernel, by decide +kernel, hparams, ?_⟩
  intro hown
  have hmentions : foreignBox.types.Mentions ⟨46⟩ ⟨⟨3⟩, "U"⟩ :=
    ⟨⟨46⟩, .refl, by decide +kernel⟩
  obtain ⟨q, hq, hid⟩ := hown _ (List.mem_singleton_self _) _ hmentions
  rw [hparams] at hq
  rw [List.mem_singleton.mp hq] at hid
  cases hid

end Supertypes.Hierarchy
