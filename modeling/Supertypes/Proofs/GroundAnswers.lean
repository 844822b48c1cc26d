import Supertypes.Fixture.Answer
import Supertypes.Proofs.DeclaredShapes
import Supertypes.Proofs.GoingUp

/-!
# Answers without parameters

- `Hierarchy.ground`: what types without type parameters may be made of in a hierarchy.
- `Hierarchy.Grounded`: an instance of a class that is made of that.
- `Hierarchy.keeps_grounded` and `Hierarchy.grounded_supertype`: mapping a grounded instance to a
  registered class yields grounded instances of that class, along the paths of any length.
- `Hierarchy.ofClasses_grounded`: the answers in a hierarchy that declarations make are of the
  class asked for, and sound at every depth.
-/

namespace Supertypes

namespace Hierarchy

open Interner

variable {h : Hierarchy} {limit : Option Nat} {t t' : Interner} {i : Instance}
  {target c : ClassId}

/-! ## Grounded instances -/

/-- What types without type parameters may be made of. -/
def ground (h : Hierarchy) : Vocabulary where
  leaf _ := True
  param _ := False
  takes d n := h.classes.contains d = true ∧ n = (h.classes.params d).length

section

variable [Digest TypeData]

theorem spans_ground (h : Hierarchy) (t : Interner) : Spans h.ground t :=
  spans_of_leaf (fun _ => trivial) t

/-- An instance of `target` without type parameters. -/
def Grounded (h : Hierarchy) (target : ClassId) (i : Instance) (t : Interner) : Prop :=
  i.head = target ∧ t.ProperInstance h.ground i

theorem lasting_grounded (h : Hierarchy) (target : ClassId) :
    Repeatable.Lasting (h.Grounded target) :=
  fun _ _ _ hwf hle hi => ⟨hi.1, hi.2.of_le hwf hle⟩

/-- The mapper over the classes of a hierarchy that follows paths of at most `limit` edges. -/
def mapperUpTo (h : Hierarchy) (limit : Option Nat) : Mapper :=
  { view := h.classes.view, limit }

/-- The environment of a grounded instance binds all parameters of its class. -/
theorem carries_environment (h : Hierarchy) (limit : Option Nat)
    (hi : t.ProperInstance h.ground i) :
    ((h.mapperUpTo limit).environment t i).Carries t (h.vocabulary i.head) h.ground where
  leaf _ _ := trivial
  takes _ _ htakes := htakes
  bound p id _ hid := hi.args id (Substitution.mem_of_get?_ofArgs hid)
  free p hp hnone := by
    have hbound := Substitution.get?_ofArgs_isSome (Nat.le_of_eq hi.takes.2.symm) hp
    have hnone' : (Substitution.ofArgs (h.classes.params i.head) (t.args i)).get? p.id = none :=
      hnone
    rw [hnone'] at hbound
    cases hbound

/-- A class with an `Any` for each parameter. -/
theorem grounded_anyInstance (hwf : t.WellFormed) (htarget : h.classes.contains target = true)
    (reason : AnyReason) :
    Repeatable t ((h.mapperUpTo limit).anyInstance target reason) (h.Grounded target) := by
  have htakes : h.ground.takes target
      (List.replicate ((h.mapperUpTo limit).view.arity target) (TypeId.any reason)).length :=
    ⟨htarget, List.length_replicate⟩
  refine (conforms_apply hwf htakes ?_).mono ?_
  · intro a ha
    rw [List.eq_of_mem_replicate ha]
    exact (Proper.leaf (TypeId.isIntrinsic_any reason) trivial).conforms
  · rintro j t' _ _ _ ⟨hhead, -, hj⟩
    exact ⟨hhead, hj.proper (spans_ground h t')⟩

/-- A class without parameters needs no arguments. -/
theorem grounded_bare (htarget : h.classes.contains target = true)
    (hnullary : (h.classes.params target).isEmpty = true) :
    h.Grounded target (.bare target) t := by
  have hargs : t.args (.bare target) = [] := rfl
  refine ⟨rfl, Nat.zero_le _, ⟨htarget, ?_⟩, ?_⟩
  · rw [hargs]
    exact (List.length_eq_zero_iff.mpr (List.isEmpty_iff.mp hnullary)).symm
  · rw [hargs]
    exact fun a ha => absurd ha List.not_mem_nil

/-- Base edges lead from grounded instances to grounded instances. -/
theorem keeps_grounded (hp : h.Proper) (htarget : h.classes.contains target = true) :
    (h.mapperUpTo limit).Keeps target h.Grounded h.types where
  lasting := lasting_grounded h
  head hj := hj.1
  issued hj := hj.2.issued
  climb := by
    rintro c j base t t' hle hwf hle' hwf' ⟨rfl, hj⟩ hbase
    have hbase' := (hp.bases_proper j.head base hbase).of_le hp.wellFormed
      (Interner.le_trans hle hle')
    refine (Substitution.conforms_applyInstance hwf'
      ((carries_environment h limit hj).of_le hwf hle') hbase').mono ?_
    rintro r t'' _ _ _ ⟨hhead, hr⟩
    exact ⟨hhead, hr.proper (spans_ground h t'')⟩
  unreached _ hwf := grounded_anyInstance hwf htarget .fromError

section Mapping

variable (hp : h.Proper) (hle : h.types ≤ t) (hwf : t.WellFormed)

include hp hle hwf

/-- By the tuple shape. -/
theorem grounded_viaShape (hi : t.ProperInstance h.ground i) :
    Repeatable t ((h.mapperUpTo limit).viaShape i) fun mapped t' =>
      ∀ r ∈ mapped, h.Grounded .tuple r t' := by
  refine Mapper.repeatable_viaShape hwf hi.issued ?_ ?_
  · exact fun shape hshape e he => (hp.shapes_issued i.head shape hshape e he).of_le hle
  · intro shape hshape
    have helements : ∀ e ∈ shape.elements, t.Proper (h.vocabulary i.head) e.item :=
      fun e he => (hp.shapes_proper i.head shape hshape e he).of_le hp.wellFormed hle
    refine (Substitution.conforms_applyElements hwf (carries_environment h limit hi)
      helements).bind ?_
    intro elements t₁ _ hwf₁ _ helements'
    refine (conforms_tupleFallback hwf₁ trivial ?_ helements').mono ?_
    · exact ⟨hp.tuple_unary.1, hp.tuple_unary.2.symm⟩
    · rintro r t₂ _ _ _ ⟨hhead, hr⟩
      exact ⟨hhead, hr.proper (spans_ground h t₂)⟩

/-- All answers. -/
theorem grounded_all (hi : t.ProperInstance h.ground i)
    (htarget : h.classes.contains target = true) :
    Repeatable t ((h.mapperUpTo limit).all i target) fun rs t' =>
      rs ≠ [] ∧ ∀ r ∈ rs, h.Grounded target r t' :=
  (keeps_grounded hp htarget).all hle hwf ⟨rfl, hi⟩

/-- The one answer. -/
theorem grounded_supertype (hi : t.ProperInstance h.ground i)
    (htarget : h.classes.contains target = true) :
    Repeatable t ((h.mapperUpTo limit).supertype i target) (h.Grounded target) := by
  refine (keeps_grounded hp htarget).supertype hle hwf ⟨rfl, hi⟩ ?_ ?_
  · exact fun hnullary _ => grounded_bare htarget hnullary
  · rintro rfl
    exact grounded_viaShape hp hle hwf hi

end Mapping

/-! ## Queries -/

/-- The results of a query. -/
def results (h : Hierarchy) (options : AnswerOptions) (i : Instance) (target : ClassId) :
    Interning (List Instance) :=
  if options.all then (h.mapperUpTo options.limit).all i target
  else return [← (h.mapperUpTo options.limit).supertype i target]

omit [Digest TypeData] in
/-- The context of an error is put on after the run. -/
theorem adapt_run {ε ε' α : Type} (f : ε → ε') (x : ExceptT ε Interning α) (t : Interner) :
    (ExceptT.adapt f x).run.run t = ((x.run.run t).1.mapError f, (x.run.run t).2) :=
  rfl

/-- What answering a query comes to. -/
theorem answer_run (h : Hierarchy) (write : Writer) (options : AnswerOptions) (index : Nat)
    (query : Query) (t : Interner) :
    (h.classes.answer write options index query).run.run t =
      match (Registry.resolving (h.classes.resolveInstance []) query.subject).run.run t with
      | (.error e, t₁) => (.error (.invalidSubject index query.subject e), t₁)
      | (.ok i, t₁) =>
        match h.classes.named (Unicode.trim query.target) with
        | .error e => (.error (.invalidTarget index query.target e), t₁)
        | .ok c =>
          let mapped := (h.results options i c).run t₁
          let printer : TypePrinter :=
            { types := mapped.2, view := h.classes.view, reasons := options.reasons }
          (.ok ⟨write printer i, Unicode.trim query.target, mapped.1.map (write printer)⟩,
            mapped.2) := by
  unfold Registry.answer
  rw [ExceptT.run_bind, StateT.run_bind, adapt_run]
  rcases (Registry.resolving (h.classes.resolveInstance []) query.subject).run.run t with
    ⟨e | i, t₁⟩
  · rfl
  · cases hnamed : h.classes.named (Unicode.trim query.target) with
    | error e =>
      dsimp only
      rw [hnamed]
      rfl
    | ok c =>
      dsimp only
      rw [hnamed]
      rfl

/-- The expressions of queries are resolved without parameters in scope. -/
theorem speaks_ground {decls : List ClassDecl} (hdeclares : h.classes.Declares decls) :
    h.classes.Speaks [] h.ground where
  param _ _ _ hp := nomatch hp
  explicit _ := trivial
  never _ := trivial
  unannotated := trivial
  takes _ _ _ _ hd _ := ⟨hdeclares.contains_of_lookup hd, rfl⟩
  heads _ _ _ hd := ⟨hdeclares.contains_of_lookup hd, rfl⟩

/-- What the subject of a query denotes. -/
theorem grounded_subject {decls : List ClassDecl} (hdeclares : h.classes.Declares decls)
    (hwf : t.WellFormed) {source : String}
    (hrun : (Registry.resolving (h.classes.resolveInstance []) source).run.run t = (.ok i, t')) :
    t'.ProperInstance h.ground i :=
  ((Registry.attempt_base hwf (speaks_ground hdeclares) source).of_ok hrun).2.2.proper
    (spans_ground h t')

/-- The tables after some queries have been answered. -/
def afterAnswers (h : Hierarchy) (options : AnswerOptions) (queries : List Query) : Interner :=
  ((h.classes.answersFrom .plain options 0 queries).run.run h.types).2

omit [Digest TypeData] in
/-- The class that a target names. -/
theorem contains_of_named {decls : List ClassDecl} (hdeclares : h.classes.Declares decls)
    {name : String} (h' : h.classes.named name = .ok c) :
    h.classes.contains c = true := by
  unfold Registry.named at h'
  split at h'
  · rename_i d hd
    obtain rfl := Except.ok.inj h'
    exact hdeclares.contains_of_lookup hd
  · cases h'

/-- Queries are answered one after another until one makes no sense. -/
theorem answersFrom_run_cons (r : Registry) (write : Writer) (options : AnswerOptions) (index : Nat)
    (query : Query) (rest : List Query) (t : Interner) :
    (r.answersFrom write options index (query :: rest)).run.run t =
      match (r.answer write options index query).run.run t with
      | (.error e, t₁) => (.error e, t₁)
      | (.ok first, t₁) =>
        match (r.answersFrom write options (index + 1) rest).run.run t₁ with
        | (.error e, t₂) => (.error e, t₂)
        | (.ok others, t₂) => (.ok (first :: others), t₂) := by
  rw [Registry.answersFrom, ExceptT.run_bind, StateT.run_bind]
  rcases (r.answer write options index query).run.run t with ⟨e | first, t₁⟩
  · rfl
  · show ((r.answersFrom write options (index + 1) rest >>= fun others =>
      (pure (first :: others) : Answering (List Answer))).run.run t₁) = _
    rw [ExceptT.run_bind, StateT.run_bind]
    dsimp only
    rcases (r.answersFrom write options (index + 1) rest).run.run t₁ with ⟨e | others, t₂⟩
    · rfl
    · rfl

theorem answersFrom_cons_outcome (r : Registry) (write : Writer) (options : AnswerOptions)
    (index : Nat) (query : Query) (rest : List Query) (t : Interner) :
    ((r.answersFrom write options index (query :: rest)).run.run t).1 = do
      let first ← ((r.answer write options index query).run.run t).1
      let others ← ((r.answersFrom write options (index + 1) rest).run.run
        ((r.answer write options index query).run.run t).2).1
      return first :: others := by
  rw [answersFrom_run_cons]
  rcases (r.answer write options index query).run.run t with ⟨e | first, t₁⟩
  · rfl
  · dsimp only
    rcases (r.answersFrom write options (index + 1) rest).run.run t₁ with ⟨e | others, t₂⟩
    · rfl
    · rfl

theorem answersFrom_cons_tables {r : Registry} {write : Writer} {options : AnswerOptions}
    {index : Nat} {query : Query} {first : Answer}
    (hok : ((r.answer write options index query).run.run t).1 = .ok first) (rest : List Query) :
    ((r.answersFrom write options index (query :: rest)).run.run t).2 =
      ((r.answersFrom write options (index + 1) rest).run.run
        ((r.answer write options index query).run.run t).2).2 := by
  rw [answersFrom_run_cons]
  rcases hrun : (r.answer write options index query).run.run t with ⟨e | _, t₁⟩
  · rw [hrun] at hok
    cases hok
  · dsimp only
    rcases (r.answersFrom write options (index + 1) rest).run.run t₁ with ⟨e | others, t₂⟩
    · rfl
    · rfl

section Answering

variable {decls : List ClassDecl} (hp : h.Proper) (hdeclares : h.classes.Declares decls)

include hp

theorem grounded_results (options : AnswerOptions) (hle : h.types ≤ t) (hwf : t.WellFormed)
    (hi : t.ProperInstance h.ground i) (htarget : h.classes.contains target = true) :
    Repeatable t (h.results options i target) fun rs t' => ∀ r ∈ rs, h.Grounded target r t' := by
  unfold results
  split
  · exact (grounded_all hp hle hwf hi htarget).mono fun rs _ _ _ _ hrs => hrs.2
  · refine (grounded_supertype hp hle hwf hi htarget).bind ?_
    intro r t' _ hwf' _ hr
    refine .pure hwf' fun r' hr' => ?_
    rwa [List.mem_singleton.mp hr']

include hdeclares

/-- Answering a query interns types. -/
theorem answer_grows (write : Writer) (options : AnswerOptions) (index : Nat) (query : Query)
    (hle : h.types ≤ t) (hwf : t.WellFormed) :
    t ≤ ((h.classes.answer write options index query).run.run t).2 ∧
      ((h.classes.answer write options index query).run.run t).2.WellFormed := by
  rw [answer_run]
  have hsubject := Registry.attempt_base hwf (speaks_ground hdeclares) query.subject
  rcases hrun : (Registry.resolving (h.classes.resolveInstance []) query.subject).run.run t with
    ⟨e | i, t₁⟩
  · obtain ⟨hle₁, hwf₁, -, -⟩ := hsubject.of_run hrun
    exact ⟨hle₁, hwf₁⟩
  · obtain ⟨hle₁, hwf₁, -, -⟩ := hsubject.of_run hrun
    dsimp only
    cases hnamed : h.classes.named (Unicode.trim query.target) with
    | error e => exact ⟨hle₁, hwf₁⟩
    | ok c =>
      have hresults := grounded_results hp options (Interner.le_trans hle hle₁) hwf₁
        (grounded_subject hdeclares hwf hrun) (contains_of_named hdeclares hnamed)
      exact ⟨Interner.le_trans hle₁ hresults.le, hresults.wellFormed⟩

theorem answersFrom_grows (write : Writer) (options : AnswerOptions) (index : Nat)
    (queries : List Query) (hle : h.types ≤ t) (hwf : t.WellFormed) :
    t ≤ ((h.classes.answersFrom write options index queries).run.run t).2 ∧
      ((h.classes.answersFrom write options index queries).run.run t).2.WellFormed := by
  induction queries generalizing index t with
  | nil => exact ⟨t.le_refl, hwf⟩
  | cons query rest ih =>
    obtain ⟨hle₁, hwf₁⟩ := answer_grows hp hdeclares write options index query hle hwf
    rw [answersFrom_run_cons]
    rcases hrun : (h.classes.answer write options index query).run.run t with ⟨e | first, t₁⟩
    · rw [hrun] at hle₁ hwf₁
      exact ⟨hle₁, hwf₁⟩
    · rw [hrun] at hle₁ hwf₁
      obtain ⟨hle₂, hwf₂⟩ := ih (index + 1) (Interner.le_trans hle hle₁) hwf₁
      dsimp only at hle₁ hle₂ hwf₂ ⊢
      rcases hrest : (h.classes.answersFrom write options (index + 1) rest).run.run t₁ with
        ⟨e | others, t₂⟩
      · rw [hrest] at hle₂ hwf₂
        exact ⟨Interner.le_trans hle₁ hle₂, hwf₂⟩
      · rw [hrest] at hle₂ hwf₂
        exact ⟨Interner.le_trans hle₁ hle₂, hwf₂⟩

end Answering

/-- An instance of `target` in which every instance at every depth is of a registered class, with
as many arguments as that class has parameters, and no type parameter occurs. -/
structure SoundAnswer (h : Hierarchy) (target : ClassId) (t : Interner) (i : Instance) : Prop where
  head_eq : i.head = target
  registered : h.classes.contains i.head = true
  arity : (t.args i).length = (h.classes.params i.head).length
  registered_inside : ∀ arg ∈ t.args i, ∀ x, t.Occurs arg x → ∀ j, t.lookup x = some (.inst j) →
    h.classes.contains j.head = true ∧ (t.args j).length = (h.classes.params j.head).length
  no_params : ∀ arg ∈ t.args i, ∀ p, ¬ t.Mentions arg p

theorem Grounded.sound (hi : h.Grounded target i t) : h.SoundAnswer target t i where
  head_eq := hi.1
  registered := hi.2.takes.1
  arity := hi.2.takes.2
  registered_inside arg harg x hx j hdata := ((hi.2.args arg harg).of_occurs hx).takes_of_inst hdata
  no_params arg harg p hp := by
    obtain ⟨x, hx, hdata⟩ := hp
    exact ((hi.2.args arg harg).of_occurs hx).param_of_param hdata

/-- Whatever has been asked before, mapping the subject of a query to its target, along the paths
of any length, yields sound answers: one answer, and a list of answers that is never empty. -/
theorem ofClasses_grounded {decls : List ClassDecl} (hok : ofClasses decls = .ok h)
    (options : AnswerOptions) (earlier : List Query) {subject target : String} {c : ClassId}
    (hsubject : (Registry.resolving (h.classes.resolveInstance []) subject).run.run
      (h.afterAnswers options earlier) = (.ok i, t))
    (htarget : h.classes.lookup target = some c) (limit : Option Nat) :
    (∀ r t', ((h.mapperUpTo limit).supertype i c).run t = (r, t') → h.SoundAnswer c t' r) ∧
    ∀ rs t', ((h.mapperUpTo limit).all i c).run t = (rs, t') →
      rs ≠ [] ∧ ∀ r ∈ rs, h.SoundAnswer c t' r := by
  obtain ⟨extra, hb⟩ := ofClasses_ok hok
  have hp := hb.toProper
  obtain ⟨hle, hwf⟩ : h.types ≤ h.afterAnswers options earlier ∧
      (h.afterAnswers options earlier).WellFormed :=
    answersFrom_grows hp hb.declares _ options 0 earlier h.types.le_refl hp.wellFormed
  -- the subject is made of classes alone, since no parameter is in scope
  have hread := Registry.attempt_base hwf (speaks_ground hb.declares) subject
  have hle' := hread.le
  have hwf' := hread.wellFormed
  rw [hsubject] at hle' hwf'
  have hi := grounded_subject hb.declares hwf hsubject
  have hc : h.classes.contains c = true := hb.declares.contains_of_lookup htarget
  have hone : Repeatable t ((h.mapperUpTo limit).supertype i c) _ :=
    grounded_supertype hp (Interner.le_trans hle hle') hwf' hi hc
  have hall : Repeatable t ((h.mapperUpTo limit).all i c) _ :=
    grounded_all hp (Interner.le_trans hle hle') hwf' hi hc
  refine ⟨?_, ?_⟩
  · intro r t' hrun
    have hpost := hone.post
    rw [hrun] at hpost
    exact hpost.sound
  · intro rs t' hrun
    have hpost := hall.post
    rw [hrun] at hpost
    exact ⟨hpost.1, fun r hr => (hpost.2 r hr).sound⟩

end

theorem couple_grounded : ∃ h i t, ofClasses pairDecls = .ok h ∧
    (Registry.resolving (h.classes.resolveInstance []) "Couple").run.run
      (h.afterAnswers {} [⟨"Couple", "Pair"⟩]) = (.ok i, t) ∧
    ∀ r t', ((h.mapperUpTo none).supertype i .tuple).run t = (r, t') →
      h.SoundAnswer .tuple t' r := by
  have hrun : ((ofClasses pairDecls).toOption.map fun h =>
      ((((Registry.resolving (h.classes.resolveInstance []) "Couple").run.run
        (h.afterAnswers {} [⟨"Couple", "Pair"⟩])).1.toOption.isSome),
        h.classes.lookup "tuple")) = some (true, some .tuple) := by
    decide +kernel
  obtain ⟨h, hok, heq⟩ := Option.map_eq_some_iff.mp hrun
  obtain ⟨hsome, htarget⟩ := Prod.mk.inj heq
  obtain ⟨i, hi⟩ := Option.isSome_iff_exists.mp hsome
  have hsubject : (Registry.resolving (h.classes.resolveInstance []) "Couple").run.run
      (h.afterAnswers {} [⟨"Couple", "Pair"⟩]) = (.ok i, _) :=
    run_eq_of_toOption hi
  exact ⟨h, i, _, ok_of_toOption hok, hsubject,
    (ofClasses_grounded (ok_of_toOption hok) {} [⟨"Couple", "Pair"⟩] hsubject htarget none).1⟩

end Hierarchy

end Supertypes
