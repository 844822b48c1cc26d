import Supertypes.Proofs.Environments
import Supertypes.Proofs.Registering

/-!
# The tables of a registry

A registry keeps its classes, an index of their names and one of their type parameters.

- `Registry.Bookkept`: the indices agree with the classes. `Registry.Bookkept.add` says that a
  class whose parameters are free may be added, and `Registry.Bookkept.of_sameHeads` that nothing
  else matters as long as names and parameters stay.
- `Hierarchy.TableCall`: a call of a program that has to do with a registry, accepted or refused,
  whatever it passes. `Hierarchy.TableCall.effect` says that at most one class is added by it,
  and `Hierarchy.TableCall.bookkept` that it keeps the tables in agreement.
- `Hierarchy.TableCalls.tables_agree`: what this means for the numbers of classes, the names and
  the owners after any number of calls.
-/

namespace Supertypes

/-! ## Tables -/

namespace Registry

variable {r r' : Registry} {name : String} {c d : ClassId}

/-- The class is the first one registered under the name. -/
def FirstNamed (r : Registry) (name : String) (c : ClassId) : Prop :=
  r.view.name? c = some name ∧ ∀ d, r.view.name? d = some name → c.number ≤ d.number

/-- The indices agree with the classes. -/
structure Bookkept (r : Registry) : Prop where
  firstNamed : ∀ name c, r.lookup name = some c → r.FirstNamed name c
  unnamed : ∀ name, r.lookup name = none → ∀ c, r.view.name? c ≠ some name
  owner_iff : ∀ p c, r.owner? p = some c ↔ p ∈ (r.params c).map Param.id

/-- One class at most is the first of a name. -/
theorem FirstNamed.unique (hc : r.FirstNamed name c) (hd : r.FirstNamed name d) : c = d := by
  have hnumber := Nat.le_antisymm (hc.2 d hd.1) (hd.2 c hc.1)
  cases c
  cases d
  exact congrArg ClassId.mk hnumber

/-- A name leads to the first class that has it. -/
theorem Bookkept.lookup_iff (hr : r.Bookkept) : r.lookup name = some c ↔ r.FirstNamed name c := by
  refine ⟨hr.firstNamed name c, fun hfirst => ?_⟩
  cases hlookup : r.lookup name with
  | none => exact absurd hfirst.1 (hr.unnamed name hlookup c)
  | some d => rw [(hr.firstNamed name d hlookup).unique hfirst]

/-- A name leads nowhere just if no class has it. -/
theorem Bookkept.lookup_eq_none_iff (hr : r.Bookkept) :
    r.lookup name = none ↔ ∀ c, r.view.name? c ≠ some name := by
  refine ⟨hr.unnamed name, fun hnone => ?_⟩
  cases hlookup : r.lookup name with
  | none => rfl
  | some d => exact absurd (hr.firstNamed name d hlookup).1 (hnone d)

/-- Classes are numbered from one on. -/
theorem contains_iff (r : Registry) (c : ClassId) :
    r.contains c = true ↔ 1 ≤ c.number ∧ c.number ≤ r.size := by
  obtain ⟨n⟩ := c
  cases n with
  | zero =>
    exact ⟨fun h => absurd h Bool.false_ne_true, fun h => absurd h.1 (Nat.not_succ_le_zero 0)⟩
  | succ n =>
    have hknown : r.contains ⟨n + 1⟩ = true ↔ n < r.size := by simp [contains, get?, size]
    rw [hknown]
    exact ⟨fun h => ⟨Nat.le_add_left 1 n, h⟩, And.right⟩

/-! ## Adding a class -/

/-- A new class is found under its name unless an older one is. -/
theorem lookup_add_or (r : Registry) (info : ClassInfo) (name : String) :
    (r.add info).2.lookup name =
      (r.lookup name).or (if info.name = name then some ⟨r.size + 1⟩ else none) := by
  by_cases htaken : (r.lookup info.name).isSome = true
  · have hnames : (r.add info).2.names = r.names := if_pos htaken
    have hlookup : (r.add info).2.lookup name = r.lookup name := by rw [lookup, hnames, lookup]
    rw [hlookup]
    split
    · rename_i hname
      obtain ⟨d, hd⟩ := Option.isSome_iff_exists.mp (hname ▸ htaken)
      rw [hd, Option.some_or]
    · rw [Option.or_none]
  · rw [Option.not_isSome_iff_eq_none] at htaken
    rw [lookup_add htaken]
    split
    · rename_i hname
      rw [← hname, htaken, Option.none_or]
    · rw [Option.or_none]

/-- An added class has its own name, and the others keep theirs. -/
theorem name?_add (r : Registry) (info : ClassInfo) (c : ClassId) :
    (r.add info).2.view.name? c = if c = ⟨r.size + 1⟩ then some info.name else r.view.name? c := by
  show ((r.add info).2.get? c).map ClassInfo.name = _
  rw [get?_add]
  split
  · rfl
  · rfl

/-- An added class has its own parameters, and the others keep theirs. -/
theorem params_add (r : Registry) (info : ClassInfo) (c : ClassId) :
    (r.add info).2.params c = if c = ⟨r.size + 1⟩ then info.params else r.params c := by
  unfold params
  rw [get?_add]
  split
  · rfl
  · rfl

/-- A class that has a name is older than the next one. -/
theorem number_le_of_name? (hc : r.view.name? c = some name) : c.number ≤ r.size := by
  obtain ⟨info, hinfo, -⟩ := Option.map_eq_some_iff.mp hc
  exact ((r.contains_iff c).mp (Option.isSome_iff_exists.mpr ⟨info, hinfo⟩)).2

/-- A class with a name has been registered before. -/
theorem ne_new_of_name? (hc : r.view.name? c = some name) : c ≠ ⟨r.size + 1⟩ := by
  rintro rfl
  exact Nat.not_succ_le_self _ (number_le_of_name? hc)

/-- A class stays the first one of its name. -/
theorem FirstNamed.add (hc : r.FirstNamed name c) (info : ClassInfo) :
    (r.add info).2.FirstNamed name c := by
  refine ⟨by rw [name?_add, if_neg (ne_new_of_name? hc.1), hc.1], fun d hd => ?_⟩
  rw [name?_add] at hd
  split at hd
  · rename_i hnew
    rw [hnew]
    exact Nat.le_succ_of_le (number_le_of_name? hc.1)
  · exact hc.2 d hd

/-- With free parameters a class is added to all tables alike. -/
theorem Bookkept.add (hr : r.Bookkept) (info : ClassInfo) (hfree : r.taken? info.params = none) :
    (r.add info).2.Bookkept where
  firstNamed name c hlookup := by
    rw [lookup_add_or] at hlookup
    cases hold : r.lookup name with
    | some d =>
      rw [hold, Option.some_or] at hlookup
      obtain rfl := Option.some.inj hlookup
      exact (hr.firstNamed name d hold).add info
    | none =>
      -- no class had the name, so that the new one is the first
      rw [hold, Option.none_or, Option.ite_none_right_eq_some] at hlookup
      obtain ⟨hname, hc⟩ := hlookup
      obtain rfl := Option.some.inj hc
      refine ⟨by rw [name?_add, if_pos rfl, hname], fun d hd => ?_⟩
      rw [name?_add] at hd
      split at hd
      · rename_i hnew
        rw [hnew]
      · exact absurd hd (hr.unnamed name hold d)
  unnamed name hlookup c hc := by
    rw [lookup_add_or, Option.or_eq_none_iff] at hlookup
    rw [name?_add] at hc
    split at hc
    · rw [if_pos (Option.some.inj hc)] at hlookup
      exact absurd hlookup.2 (Option.some_ne_none _)
    · exact hr.unnamed name hlookup.1 c hc
  owner_iff p c := by
    have hdeclares : info.declares p = true ↔ p ∈ info.params.map Param.id := by
      simp [ClassInfo.declares]
    have hparams : r.params ⟨r.size + 1⟩ = [] := by rw [params, get?_size_succ]; rfl
    rw [owner?_add, params_add]
    by_cases hdeclared : info.declares p = true
    · -- the parameter has been free
      obtain ⟨q, hq, rfl⟩ := List.mem_map.mp (hdeclares.mp hdeclared)
      have hnone := taken?_eq_none_iff.mp hfree q hq
      rw [hnone, Option.none_or, if_pos hdeclared]
      split
      · rename_i hc
        rw [hc]
        exact iff_of_true rfl (hdeclares.mp hdeclared)
      · rename_i hc
        refine iff_of_false (fun heq => hc (Option.some.inj heq).symm) fun hmem => ?_
        rw [← hr.owner_iff, hnone] at hmem
        cases hmem
    · rw [if_neg hdeclared, Option.or_none, hr.owner_iff]
      split
      · rename_i hc
        rw [hc, hparams]
        exact iff_of_false List.not_mem_nil (mt hdeclares.mpr hdeclared)
      · exact Iff.rfl

/-! ## Other changes -/

/-- Classes of the same names and parameters with the same indices. Base edges, shapes and marks
may be others, and the next type parameter too. -/
structure SameHeads (r r' : Registry) : Prop where
  size : r'.size = r.size
  names : r'.names = r.names
  owners : r'.owners = r.owners
  header? : ∀ c, r'.header? c = r.header? c

theorem SameHeads.refl (r : Registry) : SameHeads r r :=
  ⟨rfl, rfl, rfl, fun _ => rfl⟩

theorem SameHeads.trans {r'' : Registry} (h : SameHeads r r') (h' : SameHeads r' r'') :
    SameHeads r r'' :=
  ⟨h'.size.trans h.size, h'.names.trans h.names, h'.owners.trans h.owners,
    fun c => (h'.header? c).trans (h.header? c)⟩

theorem sameHeads_nextParam (r : Registry) (next : Nat) :
    SameHeads r { r with nextParam := next } :=
  ⟨rfl, rfl, rfl, fun _ => rfl⟩

/-- A declaration is changed in its edges, its shape or its marks. -/
theorem sameHeads_update (r : Registry) (c : ClassId) {f : ClassInfo → ClassInfo}
    (hf : ∀ info, (f info).name = info.name ∧ (f info).params = info.params) :
    SameHeads r (r.update c f) := by
  have htables := r.sameTables_update c f
  exact ⟨htables.size, htables.names, htables.owners, r.header?_update c hf⟩

/-- Marks are no part of the heads. -/
theorem sameHeads_markRecursion [Digest TypeData] (r : Registry) (types : Interner) :
    SameHeads r (r.markRecursion types) := by
  have htables := r.sameTables_markRecursion types
  exact ⟨htables.size, htables.names, htables.owners, r.header?_markRecursion types⟩

/-- The indices agree with any classes that have the same heads. -/
theorem Bookkept.of_sameHeads (hr : r.Bookkept) (h : SameHeads r r') : r'.Bookkept := by
  have hname : ∀ c, r'.view.name? c = r.view.name? c := fun c => by
    have hheader := congrArg (Option.map Prod.fst) (h.header? c)
    unfold Registry.header? at hheader
    rwa [Option.map_map, Option.map_map] at hheader
  have hparams : ∀ c, r'.params c = r.params c := fun c => by
    rw [params_eq_header?, params_eq_header?, h.header? c]
  have hlookup : ∀ name, r'.lookup name = r.lookup name := fun name => by
    rw [lookup, h.names, lookup]
  have howner : ∀ p, r'.owner? p = r.owner? p := fun p => by rw [owner?, h.owners, owner?]
  refine ⟨fun name c hc => ?_, fun name hnone c => ?_, fun p c => ?_⟩
  · rw [hlookup] at hc
    obtain ⟨hnamed, hfirst⟩ := hr.firstNamed name c hc
    refine ⟨(hname c).trans hnamed, fun d hd => hfirst d ?_⟩
    rwa [hname] at hd
  · rw [hlookup] at hnone
    rw [hname]
    exact hr.unnamed name hnone c
  · rw [howner, hparams]
    exact hr.owner_iff p c

/-! ## The built-in classes -/

/-- The built-in classes of a process that has given out the type parameters before `next`. -/
def builtinFrom (next : Nat) : Registry :=
  let (_, r) := { empty with nextParam := next }.add
    { name := "object", params := [], flags := { builtin := true } }
  let (element, r) := r.freshParam "T_co"
  let (_, r) := r.add { name := "tuple", params := [element], flags := { builtin := true } }
  r.update .tuple fun info => { info with bases := [.bare .object] }

/-- The parameter of `tuple` is the first one of the process. -/
theorem builtinFrom_one : builtinFrom 1 = builtin :=
  rfl

/-- Nothing is in the tables at first. -/
theorem bookkept_empty (next : Nat) : ({ empty with nextParam := next } : Registry).Bookkept where
  firstNamed name c h := absurd h (Option.some_ne_none c).symm
  unnamed name _ c h := by
    obtain ⟨_ | n⟩ := c
    · exact Option.some_ne_none name h.symm
    · exact Option.some_ne_none name h.symm
  owner_iff p c := by
    obtain ⟨_ | n⟩ := c
    · exact iff_of_false (Option.some_ne_none _).symm List.not_mem_nil
    · exact iff_of_false (Option.some_ne_none _).symm List.not_mem_nil

/-- At the start the indices agree with the classes, whatever number new parameters begin
with. -/
theorem bookkept_builtinFrom (next : Nat) : (builtinFrom next).Bookkept := by
  have hobject := (bookkept_empty next).add
    { name := "object", params := [], flags := { builtin := true } } rfl
  have hfresh := hobject.of_sameHeads (sameHeads_nextParam _ (next + 1))
  have htuple := hfresh.add
    { name := "tuple", params := [⟨⟨next⟩, "T_co"⟩], flags := { builtin := true } } rfl
  exact htuple.of_sameHeads (sameHeads_update _ .tuple
    (f := fun info => { info with bases := [.bare .object] }) fun _ => ⟨rfl, rfl⟩)

end Registry

/-! ## Calls -/

namespace Hierarchy

open Registry

variable {h h' h'' : Hierarchy} {answer : Option ClassId} {issued : List ClassId}

/-- Register a class as it is declared, which may be with base edges and a shape that no check
has seen. -/
def registerInfo (info : ClassInfo) : Edit ClassId := do
  let h ← get
  if let some (p, owner) := h.classes.taken? info.params then
    throw (.paramTaken p owner)
  let (c, classes) := h.classes.add info
  set { h with classes }
  return c

/-- A class that gets its edges and its shape later. -/
theorem registerInfo_header (name : String) (params : List Param) (flags : ClassFlags) :
    registerInfo { name, params, flags } = register name params flags :=
  rfl

/-- A class is refused for a parameter that some class has, and appended otherwise. -/
theorem registerInfo_cases (h : Hierarchy) (info : ClassInfo) :
    (∃ e, (registerInfo info).run.run h = (.error e, h)) ∨
    (h.classes.taken? info.params = none ∧ (registerInfo info).run.run h =
      (.ok ⟨h.classes.size + 1⟩, { h with classes := (h.classes.add info).2 })) := by
  unfold registerInfo
  rw [run_get_bind]
  cases h.classes.taken? info.params with
  | some found => exact .inl ⟨_, rfl⟩
  | none => exact .inr ⟨rfl, rfl⟩

section

variable [Digest TypeData]

/-- A call with any arguments, on whatever has been interned. It answers the class that it
registers, if it does. Type parameters are given out by the process, to other registries as
well. -/
inductive TableCall (h : Hierarchy) : Option ClassId → Hierarchy → Prop
  | types (types : Interner) : TableCall h none { h with types }
  | freshParams (next : Nat) : TableCall h none { h with
      classes := { h.classes with nextParam := next } }
  | register (info : ClassInfo) : TableCall h ((registerInfo info).run.run h).1.toOption
      ((registerInfo info).run.run h).2
  | addBase (c : ClassId) (base : Instance) :
    TableCall h none ((Hierarchy.addBase c base).run.run h).2
  | setTupleShape (c : ClassId) (elements : List (Element TypeId)) :
    TableCall h none ((Hierarchy.setTupleShape c elements).run.run h).2

/-- Calls one after the other, with the classes that they have registered. -/
inductive TableCalls (h : Hierarchy) : List ClassId → Hierarchy → Prop
  | start : TableCalls h [] h
  | next {issued : List ClassId} {answer : Option ClassId} {h' h'' : Hierarchy}
    (hcalls : TableCalls h issued h') (hcall : TableCall h' answer h'') :
    TableCalls h (issued ++ answer.toList) h''

omit [Digest TypeData] in
theorem sameHeads_withBase (h : Hierarchy) (c : ClassId) (base : Instance) :
    SameHeads h.classes (h.withBase c base).classes :=
  sameHeads_update h.classes c fun _ => ⟨rfl, rfl⟩

theorem sameHeads_withShape (h : Hierarchy) (c : ClassId) (elements : List (Element TypeId)) :
    SameHeads h.classes (h.withShape c elements).classes := by
  refine SameHeads.trans ?_ (sameHeads_markRecursion _ h.types)
  exact sameHeads_update h.classes c fun _ => ⟨rfl, rfl⟩

/-- A call registers one class, whose parameters have been free, or none. -/
theorem TableCall.effect (hcall : TableCall h answer h') :
    (answer = none ∧ SameHeads h.classes h'.classes) ∨
      ∃ info, h.classes.taken? info.params = none ∧ answer = some ⟨h.classes.size + 1⟩ ∧
        h'.classes = (h.classes.add info).2 := by
  cases hcall with
  | types types => exact .inl ⟨rfl, .refl _⟩
  | freshParams next => exact .inl ⟨rfl, sameHeads_nextParam _ next⟩
  -- of all calls this one alone may add a class
  | register info =>
    rcases registerInfo_cases h info with ⟨e, hrun⟩ | ⟨hfree, hrun⟩
    · rw [hrun]
      exact .inl ⟨rfl, .refl _⟩
    · rw [hrun]
      exact .inr ⟨info, hfree, rfl, rfl⟩
  | addBase c base =>
    rcases addBase_cases h c base with ⟨e, hrun⟩ | ⟨-, hrun⟩
    · rw [hrun]
      exact .inl ⟨rfl, .refl _⟩
    · rw [hrun]
      exact .inl ⟨rfl, h.sameHeads_withBase c base⟩
  | setTupleShape c elements =>
    refine .inl ⟨rfl, ?_⟩
    rcases setTupleShape_cases h c elements with ⟨-, hrun⟩ | ⟨-, -, hrun⟩ | ⟨-, -, hrun⟩ |
      ⟨-, -, -, e, hrun⟩
    · rw [hrun]
      exact .refl _
    · rw [hrun]
      exact h.sameHeads_withShape c elements
    · rw [hrun]
      exact (sameHeads_withBase (h.joined elements).2 c _).trans (sameHeads_withShape _ c elements)
    · rw [hrun]
      exact .refl _

/-- A call keeps the tables in agreement. -/
theorem TableCall.bookkept (hcall : TableCall h answer h') (hr : h.classes.Bookkept) :
    h'.classes.Bookkept := by
  rcases hcall.effect with ⟨-, hsame⟩ | ⟨info, hfree, -, hadd⟩
  · exact hr.of_sameHeads hsame
  · rw [hadd]
    exact hr.add info hfree

/-- A sequence of calls keeps the tables in agreement. -/
theorem TableCalls.bookkept (hcalls : TableCalls h issued h') (hr : h.classes.Bookkept) :
    h'.classes.Bookkept := by
  induction hcalls with
  | start => exact hr
  | next _ hcall ih => exact hcall.bookkept ih

/-- The classes that have been registered are numbered in order. -/
theorem TableCalls.issued_eq (hcalls : TableCalls h issued h') :
    issued.map ClassId.number = List.range' (h.classes.size + 1) issued.length ∧
      h'.classes.size = h.classes.size + issued.length := by
  induction hcalls with
  | start => exact ⟨rfl, rfl⟩
  | @next issued answer h₁ h₂ _ hcall ih =>
    obtain ⟨hissued, hsize⟩ := ih
    rcases hcall.effect with ⟨rfl, hsame⟩ | ⟨info, -, rfl, hadd⟩
    · rw [Option.toList_none, List.append_nil]
      exact ⟨hissued, hsame.size.trans hsize⟩
    · have hnext : h₂.classes.size = h₁.classes.size + 1 := by
        rw [hadd]
        exact List.length_append
      rw [Option.toList_some, List.map_append, hissued, List.length_append, List.length_singleton,
        List.range'_concat, Nat.one_mul, hnext, hsize]
      exact ⟨by rw [List.map_singleton, Nat.add_right_comm], Nat.add_assoc _ _ _⟩

/-- A program that edits a hierarchy makes such calls. -/
theorem EditCall.exists_tableCall (hcall : EditCall h h') : ∃ answer, TableCall h answer h' := by
  cases hcall with
  | types types => exact ⟨none, .types types⟩
  | freshParam name => exact ⟨none, .freshParams _⟩
  | register name params flags =>
    rw [← registerInfo_header]
    exact ⟨_, .register { name, params, flags }⟩
  | addBase c base => exact ⟨none, .addBase c base⟩
  | setTupleShape c elements => exact ⟨none, .setTupleShape c elements⟩

/-- So do any edits. -/
theorem Edited.bookkept (he : Edited h) : h.classes.Bookkept := by
  unfold Edited at he
  induction he with
  | refl =>
    show Registry.builtin.Bookkept
    rw [← builtinFrom_one]
    exact bookkept_builtinFrom 1
  | tail _ hcall ih =>
    obtain ⟨answer, hcall⟩ := hcall.exists_tableCall
    exact hcall.bookkept ih

/-- After any calls the numbers of the registered classes are those from one up to the number of
classes, in the order in which they have been registered. A name leads to the first class that
has been registered under it, and to none if there is no such class. The owner of a type
parameter is the class that declares it, and so no two classes declare the same one. -/
theorem TableCalls.tables_agree {next : Nat} {types : Interner}
    (hcalls : TableCalls { types, classes := builtinFrom next } issued h) :
    (∀ c, h.classes.contains c = true ↔ 1 ≤ c.number ∧ c.number ≤ h.classes.size) ∧
    (ClassId.object :: .tuple :: issued).map ClassId.number = List.range' 1 h.classes.size ∧
    (∀ name, (∀ c, h.classes.lookup name = some c ↔ h.classes.view.name? c = some name ∧
        ∀ d, h.classes.view.name? d = some name → c.number ≤ d.number) ∧
      (h.classes.lookup name = none ↔ ∀ c, h.classes.view.name? c ≠ some name)) ∧
    (∀ p c, h.classes.owner? p = some c ↔ p ∈ (h.classes.params c).map Param.id) ∧
    ∀ p c d, p ∈ (h.classes.params c).map Param.id → p ∈ (h.classes.params d).map Param.id →
      c = d := by
  have hr := hcalls.bookkept (bookkept_builtinFrom next)
  obtain ⟨hissued, hsize⟩ := hcalls.issued_eq
  refine ⟨h.classes.contains_iff, ?_, fun name => ⟨fun c => hr.lookup_iff, hr.lookup_eq_none_iff⟩,
    hr.owner_iff, fun p c d hc hd => ?_⟩
  · rw [hsize, show (builtinFrom next).size = 2 from rfl, Nat.add_comm 2, List.range'_succ,
      List.range'_succ, List.map_cons, List.map_cons, hissued]
    rfl
  · rw [← hr.owner_iff] at hc hd
    exact Option.some.inj (hc.symm.trans hd)

end

/-- Two classes `Box`, the first one with a parameter. A class that brings the same parameter has
been refused between them, and so has an edge of the first to itself. -/
def boxes : Hierarchy :=
  let h := ((Hierarchy.freshParam "T").run {}).2
  let h := ((registerInfo { name := "Box", params := [⟨⟨2⟩, "T"⟩] }).run.run h).2
  let h := ((registerInfo { name := "Bag", params := [⟨⟨2⟩, "T"⟩] }).run.run h).2
  let h := ((Hierarchy.addBase ⟨3⟩ (.bare ⟨3⟩)).run.run h).2
  ((registerInfo { name := "Box", params := [] }).run.run h).2

theorem boxes_tables_agree :
    TableCalls { types := {}, classes := builtinFrom 1 } [⟨3⟩, ⟨4⟩] boxes ∧
    boxes.classes.lookup "Box" = some ⟨3⟩ ∧ boxes.classes.lookup "Bag" = none ∧
    boxes.classes.owner? ⟨2⟩ = some ⟨3⟩ ∧ boxes.classes.contains ⟨4⟩ = true ∧
    boxes.classes.contains ⟨5⟩ = false := by
  have hcalls : TableCalls { types := {}, classes := builtinFrom 1 } [⟨3⟩, ⟨4⟩] boxes := by
    have hbox := (TableCalls.start (h := { types := {}, classes := builtinFrom 1 })).next
      (.freshParams 3) |>.next (.register { name := "Box", params := [⟨⟨2⟩, "T"⟩] })
    have hbag := hbox.next (.register { name := "Bag", params := [⟨⟨2⟩, "T"⟩] })
    exact (hbag.next (.addBase ⟨3⟩ (.bare ⟨3⟩))).next (.register { name := "Box", params := [] })
  obtain ⟨hcontains, -, -, howners, -⟩ := hcalls.tables_agree
  refine ⟨hcalls, ?_, ?_, (howners _ _).mpr (by decide), (hcontains _).mpr (by decide), ?_⟩
  · decide
  · decide
  · exact Bool.eq_false_iff.mpr fun hfive => absurd ((hcontains _).mp hfive) (by decide)

end Hierarchy

end Supertypes
