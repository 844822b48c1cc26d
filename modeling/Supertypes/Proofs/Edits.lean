import Supertypes.Classes.Hierarchy
import Supertypes.Proofs.Ancestry
import Supertypes.Proofs.Mentions

/-!
# What edits do

- `Hierarchy.EdgeValid`: a base edge points at a registered class, has as many arguments as that
  class has parameters, and mentions no parameters but those of its own class.
- `Hierarchy.Admits`: an edge that may be added. `Hierarchy.addBase_of_admits` and
  `Hierarchy.addBase_of_not_admits` say that these are the edges that `Hierarchy.addBase` adds,
  and that it changes nothing otherwise.
- `Hierarchy.register_cases`, `Hierarchy.addBase_cases` and `Hierarchy.setTupleShape_cases`: the
  outcomes of the edits, for whatever is known to hold after each of them.
-/

namespace Supertypes.Hierarchy

variable {α β : Type} {h h' : Hierarchy}

/-! ## Running edits -/

/-- A sequence of edits goes on after the first one has been accepted. -/
theorem run_bind_of_ok {x : Edit α} {f : α → Edit β} {a : α} (hx : x.run.run h = (.ok a, h')) :
    (x >>= f).run.run h = (f a).run.run h' := by
  rw [ExceptT.run_bind, StateT.run_bind, hx]
  rfl

/-- It ends with the first one that is refused. -/
theorem run_bind_of_error {x : Edit α} {f : α → Edit β} {e : HierarchyError}
    (hx : x.run.run h = (.error e, h')) : (x >>= f).run.run h = (.error e, h') := by
  rw [ExceptT.run_bind, StateT.run_bind, hx]
  rfl

theorem run_get_bind (h : Hierarchy) (f : Hierarchy → Edit β) :
    ((get : Edit Hierarchy) >>= f).run.run h = (f h).run.run h :=
  rfl

theorem run_discard_of_ok {x : Edit α} {a : α} (hx : x.run.run h = (.ok a, h')) :
    (discard x).run.run h = (.ok (), h') := by
  show (x >>= fun _ => pure ()).run.run h = _
  rw [run_bind_of_ok hx]
  rfl

theorem run_discard_of_error {x : Edit α} {e : HierarchyError} (hx : x.run.run h = (.error e, h')) :
    (discard x).run.run h = (.error e, h') := by
  show (x >>= fun _ => pure ()).run.run h = _
  rw [run_bind_of_error hx]

/-- A class that is there is found. -/
theorem require_of_some {c : ClassId} {info : ClassInfo} (hc : h.classes.get? c = some info) :
    (require c).run.run h = (.ok info, h) := by
  unfold require
  rw [run_get_bind, hc]
  rfl

/-- A class that is not there is reported. -/
theorem require_of_none {c : ClassId} (hc : h.classes.get? c = none) :
    (require c).run.run h = (.error (.unknownClass c), h) := by
  unfold require
  rw [run_get_bind, hc]
  rfl

/-! ## Classes -/

section Registering

variable {h : Hierarchy} {params : List Param}

/-- A class with a parameter that is taken is refused. -/
theorem register_of_taken {p : ParamId} {owner : ClassId}
    (htaken : h.classes.taken? params = some (p, owner)) (name : String) (flags : ClassFlags) :
    (register name params flags).run.run h = (.error (.paramTaken p owner), h) := by
  unfold register
  rw [run_get_bind, htaken]
  rfl

/-- A class whose parameters are free is added. -/
theorem register_of_free (hfree : h.classes.taken? params = none) (name : String)
    (flags : ClassFlags) :
    (register name params flags).run.run h =
      (.ok ⟨h.classes.size + 1⟩,
        { h with classes := (h.classes.add { name, params, flags }).2 }) := by
  unfold register
  rw [run_get_bind, hfree]
  rfl

end Registering

/-- A class is refused for a parameter that some class has, and appended otherwise. -/
theorem register_cases (h : Hierarchy) (name : String) (params : List Param) (flags : ClassFlags) :
    (∃ p owner, h.classes.taken? params = some (p, owner) ∧
      (register name params flags).run.run h = (.error (.paramTaken p owner), h)) ∨
    (h.classes.taken? params = none ∧
      (register name params flags).run.run h =
        (.ok ⟨h.classes.size + 1⟩,
          { h with classes := (h.classes.add { name, params, flags }).2 })) := by
  cases htaken : h.classes.taken? params with
  | some found => exact .inl ⟨found.1, found.2, rfl, register_of_taken htaken name flags⟩
  | none => exact .inr ⟨rfl, register_of_free htaken name flags⟩

/-! ## Base edges -/

variable [Digest TypeData]

/-- What the checks ask of a base edge of `c`. -/
structure EdgeValid (h : Hierarchy) (c : ClassId) (base : Instance) : Prop where
  registered : h.classes.contains base.head = true
  arity : (h.types.args base).length = (h.classes.params base.head).length
  /-- The parameters mentioned, at whatever depth, are those of `c`. -/
  own : ∀ arg ∈ h.types.args base, ∀ p, h.types.Mentions arg p →
    ∃ q ∈ h.classes.params c, q.id = p.id

/-- The base edge may be added to `c`. -/
structure Admits (h : Hierarchy) (c : ClassId) (base : Instance) : Prop extends
    EdgeValid h c base where
  known : h.classes.contains c = true
  no_cycle : h.classes.wouldCycle c base.head = false

/-- The hierarchy with one more base edge. -/
def withBase (h : Hierarchy) (c : ClassId) (base : Instance) : Hierarchy :=
  { h with classes := h.classes.update c fun info => { info with bases := info.bases ++ [base] } }

omit [Digest TypeData] in
/-- There is a least identity unless there is none at all. -/
theorem leastParam?_eq_none {ps : List ParamId} : leastParam? ps = none ↔ ps = [] := by
  unfold leastParam?
  rw [Option.map_eq_none_iff, List.min?_eq_none_iff, List.map_eq_nil_iff]

/-- No foreign parameter is found if and only if all that are mentioned are declared. -/
theorem foreignParams_eq_nil {types : Interner} {info : ClassInfo} {base : Instance} :
    foreignParams types info base = [] ↔
      ∀ arg ∈ types.args base, ∀ p, types.Mentions arg p → ∃ q ∈ info.params, q.id = p.id := by
  unfold foreignParams
  simp only [List.filter_eq_nil_iff, List.mem_flatMap, Interner.mem_params_iff, ClassInfo.declares,
    Bool.not_eq_true', Bool.not_eq_false, List.any_eq_true, decide_eq_true_iff]
  constructor
  · intro hall arg harg p hp
    exact hall p.id ⟨arg, harg, p, hp, rfl⟩
  · rintro hall p ⟨arg, harg, q, hq, rfl⟩
    exact hall arg harg q hq

/-- No edge is added to an unknown class. -/
theorem addBase_of_unknown {c : ClassId} (hc : h.classes.get? c = none) (base : Instance) :
    (addBase c base).run.run h = (.error (.unknownClass c), h) := by
  unfold addBase
  rw [run_bind_of_error (require_of_none hc)]

/-- No edge is added that leads to an unknown class. -/
theorem addBase_of_unknown_base {c : ClassId} {base : Instance} {info : ClassInfo}
    (hinfo : h.classes.get? c = some info) (hbase : h.classes.get? base.head = none) :
    (addBase c base).run.run h = (.error (.unknownClass base.head), h) := by
  unfold addBase
  rw [run_bind_of_ok (require_of_some hinfo), run_bind_of_error (require_of_none hbase)]

/-- What adding a base edge between registered classes does, check by check. -/
theorem addBase_run {c : ClassId} {base : Instance} {info baseInfo : ClassInfo}
    (hinfo : h.classes.get? c = some info) (hbase : h.classes.get? base.head = some baseInfo) :
    (addBase c base).run.run h =
      if (h.types.args base).length ≠ baseInfo.params.length then
        (.error (.arityMismatch c base.head baseInfo.params.length (h.types.args base).length), h)
      else
        match leastParam? (foreignParams h.types info base) with
        | some p => (.error (.foreignParam c p), h)
        | none =>
          if h.classes.wouldCycle c base.head then
            (.error (.inheritanceCycle c base.head), h)
          else (.ok (), h.withBase c base) := by
  unfold addBase
  rw [run_bind_of_ok (require_of_some hinfo), run_bind_of_ok (require_of_some hbase), run_get_bind]
  dsimp only
  split
  · rfl
  · cases leastParam? (foreignParams h.types info base) with
    | some p => rfl
    | none =>
      show StateT.run (ExceptT.run _) h = _
      dsimp only
      split
      · rfl
      · rfl

/-- An edge that may be added is added. -/
theorem addBase_of_admits {c : ClassId} {base : Instance} (ha : h.Admits c base) :
    (addBase c base).run.run h = (.ok (), h.withBase c base) := by
  obtain ⟨info, hinfo⟩ := Registry.get?_of_contains ha.known
  obtain ⟨baseInfo, hbase⟩ := Registry.get?_of_contains ha.registered
  have harity := ha.arity
  have hown := ha.own
  rw [Registry.params_of_get? hbase] at harity
  rw [Registry.params_of_get? hinfo, ← foreignParams_eq_nil, ← leastParam?_eq_none] at hown
  rw [addBase_run hinfo hbase, if_neg (not_not.mpr harity), hown]
  simp only [ha.no_cycle, Bool.false_eq_true, if_false]

/-- An edge that may not be added is refused, and nothing changes. -/
theorem addBase_of_not_admits {c : ClassId} {base : Instance} (ha : ¬ h.Admits c base) :
    ∃ e, (addBase c base).run.run h = (.error e, h) := by
  -- one case for each check, in the order in which they are made
  cases hinfo : h.classes.get? c with
  | none => exact ⟨_, addBase_of_unknown hinfo base⟩
  | some info =>
    cases hbase : h.classes.get? base.head with
    | none => exact ⟨_, addBase_of_unknown_base hinfo hbase⟩
    | some baseInfo =>
      rw [addBase_run hinfo hbase]
      split
      · exact ⟨_, rfl⟩
      · rename_i harity
        cases hleast : leastParam? (foreignParams h.types info base) with
        | some p => exact ⟨_, rfl⟩
        | none =>
          dsimp only
          split
          · exact ⟨_, rfl⟩
          · -- all checks have passed
            rename_i hcycle
            refine absurd ?_ ha
            rw [leastParam?_eq_none, foreignParams_eq_nil,
              ← Registry.params_of_get? hinfo] at hleast
            refine {
              registered := Option.isSome_iff_exists.mpr ⟨baseInfo, hbase⟩
              arity := ?_
              own := hleast
              known := Option.isSome_iff_exists.mpr ⟨info, hinfo⟩
              no_cycle := Bool.eq_false_iff.mpr hcycle }
            rw [Registry.params_of_get? hbase]
            exact not_not.mp harity

/-- A base edge is added if it may be, and otherwise nothing changes. -/
theorem addBase_cases (h : Hierarchy) (c : ClassId) (base : Instance) :
    (∃ e, (addBase c base).run.run h = (.error e, h)) ∨
      h.Admits c base ∧ (addBase c base).run.run h = (.ok (), h.withBase c base) := by
  by_cases ha : h.Admits c base
  · exact .inr ⟨ha, addBase_of_admits ha⟩
  · exact .inl (addBase_of_not_admits ha)

/-! ## Tuple shapes -/

/-- The tuple class over the joined items, and the hierarchy in which it has been interned. -/
def joined (h : Hierarchy) (elements : List (Element TypeId)) : Instance × Hierarchy :=
  (interning (tupleFallback .tuple elements)).run h

/-- The tuple class over the union of issued items. -/
theorem repeatable_tupleFallback {t : Interner} (hwf : t.WellFormed) (tuple : ClassId)
    {elements : List (Element TypeId)} (hes : ∀ e ∈ elements, t.Issued e.item) :
    Interner.Repeatable t (tupleFallback tuple elements) fun i t' =>
      i.head = tuple ∧ t'.IssuedList i.args ∧
        t'.args i = [((Interner.union (elements.map Element.item)).run t).1] ∧
        ((Interner.union (elements.map Element.item)).run t).2 ≤ t' := by
  have hitems : ∀ id ∈ elements.map Element.item, t.Issued id := by
    rintro id hid
    obtain ⟨e, he, rfl⟩ := List.mem_map.mp hid
    exact hes e he
  refine (Interner.repeatable_union hwf hitems).run_eq.bind ?_
  rintro id t' _ hwf' _ ⟨⟨hid, -⟩, hrun⟩
  rw [← hrun]
  have hargs : ∀ arg ∈ [id], t'.Issued arg := by simpa using hid
  refine (Interner.repeatable_apply hwf' tuple hargs).mono ?_
  rintro i t'' hle _ _ ⟨hhead, hlist, heq⟩
  exact ⟨hhead, hlist, heq, hle⟩

/-- The hierarchy with a tuple shape for `c`. -/
def withShape (h : Hierarchy) (c : ClassId) (elements : List (Element TypeId)) : Hierarchy :=
  { h with
    classes := (h.classes.update c fun info =>
      { info with
        shape := some { elements }
        flags := { info.flags with tupleShaped := true } }).markRecursion h.types }

/-- No shape is set for an unknown class. -/
theorem setTupleShape_of_unknown {c : ClassId} (hc : h.classes.contains c = false)
    (elements : List (Element TypeId)) :
    (setTupleShape c elements).run.run h = (.error (.unknownClass c), h) := by
  have hnone : h.classes.get? c = none := by
    unfold Registry.contains at hc
    simpa using hc
  unfold setTupleShape
  rw [run_bind_of_error (run_discard_of_error (require_of_none hnone))]

/-- A class that derives from `tuple` gets its shape as it is. -/
theorem setTupleShape_of_derives {c : ClassId} (hc : h.classes.contains c = true)
    (hder : h.classes.derives c .tuple = true) (elements : List (Element TypeId)) :
    (setTupleShape c elements).run.run h = (.ok (), h.withShape c elements) := by
  obtain ⟨info, hinfo⟩ := Registry.get?_of_contains hc
  unfold setTupleShape
  rw [run_bind_of_ok (run_discard_of_ok (require_of_some hinfo)), run_get_bind]
  simp only [hder]
  rfl

/-- A class that is no tuple yet gets an edge first. -/
theorem setTupleShape_of_not_derives {c : ClassId} (hc : h.classes.contains c = true)
    (hder : h.classes.derives c .tuple = false) (elements : List (Element TypeId)) :
    (setTupleShape c elements).run.run h =
      match (addBase c (h.joined elements).1).run.run (h.joined elements).2 with
      | (.ok (), h') => (.ok (), h'.withShape c elements)
      | (.error e, h') => (.error e, h') := by
  obtain ⟨info, hinfo⟩ := Registry.get?_of_contains hc
  have hjoined :
      (ExceptT.lift (interning (tupleFallback .tuple elements)) : Edit Instance).run.run h =
        (.ok (h.joined elements).1, (h.joined elements).2) := rfl
  unfold setTupleShape
  rw [run_bind_of_ok (run_discard_of_ok (require_of_some hinfo)), run_get_bind]
  simp only [hder]
  rw [if_neg Bool.false_ne_true, run_bind_of_ok hjoined]
  rcases hadd : (addBase c (h.joined elements).1).run.run (h.joined elements).2 with ⟨r, h'⟩
  cases r with
  | ok _ =>
    rw [run_bind_of_ok hadd]
    rfl
  | error e => rw [run_bind_of_error hadd]

/-- The outcomes of declaring a tuple shape: the class is not there, it is a tuple already, or it
becomes one by a new edge over the joined items, which may be refused. -/
theorem setTupleShape_cases (h : Hierarchy) (c : ClassId) (elements : List (Element TypeId)) :
    (h.classes.contains c = false ∧
      (setTupleShape c elements).run.run h = (.error (.unknownClass c), h)) ∨
    (h.classes.contains c = true ∧ h.classes.derives c .tuple = true ∧
      (setTupleShape c elements).run.run h = (.ok (), h.withShape c elements)) ∨
    (h.classes.derives c .tuple = false ∧ (h.joined elements).2.Admits c (h.joined elements).1 ∧
      (setTupleShape c elements).run.run h =
        (.ok (), ((h.joined elements).2.withBase c (h.joined elements).1).withShape c elements)) ∨
    (h.classes.contains c = true ∧ h.classes.derives c .tuple = false ∧
      ¬ (h.joined elements).2.Admits c (h.joined elements).1 ∧
      ∃ e, (setTupleShape c elements).run.run h = (.error e, (h.joined elements).2)) := by
  cases hc : h.classes.contains c with
  | false => exact .inl ⟨rfl, setTupleShape_of_unknown hc elements⟩
  | true =>
    cases hder : h.classes.derives c .tuple with
    | true => exact .inr (.inl ⟨rfl, rfl, setTupleShape_of_derives hc hder elements⟩)
    | false =>
      -- the new edge decides
      rw [setTupleShape_of_not_derives hc hder]
      by_cases ha : (h.joined elements).2.Admits c (h.joined elements).1
      · refine .inr (.inr (.inl ⟨rfl, ha, ?_⟩))
        rw [addBase_of_admits ha]
      · obtain ⟨e, he⟩ := addBase_of_not_admits ha
        refine .inr (.inr (.inr ⟨rfl, rfl, ha, e, ?_⟩))
        rw [he]

end Supertypes.Hierarchy
