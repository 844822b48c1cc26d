import Supertypes.Proofs.MappingInStep

/-!
# Answers in step

- `Hierarchy.Corresponds`: hierarchies that give counterparts to the same names, with the same
  parameters, base edges and shapes.
- `Hierarchy.mapped`: the subject of a query and its results, as instances.
  `Hierarchy.sameOutcome_mapped` says that they are the same in such hierarchies, as long as
  there is room for the types that answering interns.
- `Hierarchy.answersFrom_same`: so all queries have the same answers, up to the order of union
  members. `Hierarchy.sortedAnswers_eq` says so of the queries asked first of all.
-/

namespace Supertypes

open Interner

variable [Digest TypeData]

namespace Hierarchy

variable {ρ : Renaming} {h h' : Hierarchy} {t t' : Interner} {i i' : Instance} {c c' : ClassId}
  {decls decls' : List ClassDecl}

/-- The hierarchies give counterparts to the same names, and whatever types are interned later,
the counterparts look the same. -/
structure Corresponds (ρ : Renaming) (h h' : Hierarchy) : Prop where
  oneToOne : ρ.OneToOne
  registry : Registry.Corresponds ρ h.classes h'.classes
  view : ∀ t t', h.types ≤ t → h'.types ≤ t' → Abreast ρ t t' →
    ClassView.Corresponds ρ t t' h.classes.view h'.classes.view

instance grows_results (h : Hierarchy) (options : AnswerOptions) (i : Instance) (target : ClassId) :
    Grows (h.results options i target) := by
  unfold results
  infer_instance

theorem inStep_results (habreast : Abreast ρ t t')
    (hview : ClassView.Corresponds ρ t t' h.classes.view h'.classes.view) (options : AnswerOptions)
    (hi : SameInstance ρ t t' i i') (hc : ρ.cls c c') :
    InStep t t' (List.Forall₂ (SameInstance ρ t t')) (h.results options i c)
      (h'.results options i' c') := by
  have hview : ClassView.Corresponds ρ t t' (h.mapperUpTo options.limit).view
      (h'.mapperUpTo options.limit).view := hview
  unfold results
  split
  · exact Mapper.inStep_all habreast hview rfl hi hc
  · exact (Mapper.inStep_supertype habreast hview rfl hi hc).bind fun r r' hr =>
      .pure (.cons hr .nil)

/-- The subject of the question number `index`, with its results. -/
def mapped (h : Hierarchy) (options : AnswerOptions) (index : Nat) (query : Query) :
    Answering (Instance × List Instance) := do
  let i ← ExceptT.adapt (.invalidSubject index query.subject)
    (Registry.resolving (h.classes.resolveInstance []) query.subject)
  match h.classes.named (Unicode.trim query.target) with
  | .ok c => return (i, ← ExceptT.lift (h.results options i c))
  | .error e => throw (.invalidTarget index query.target e)

theorem mapped_run (h : Hierarchy) (options : AnswerOptions) (index : Nat) (query : Query)
    (t : Interner) :
    (h.mapped options index query).run.run t =
      match (Registry.resolving (h.classes.resolveInstance []) query.subject).run.run t with
      | (.error e, t₁) => (.error (.invalidSubject index query.subject e), t₁)
      | (.ok i, t₁) =>
        match h.classes.named (Unicode.trim query.target) with
        | .error e => (.error (.invalidTarget index query.target e), t₁)
        | .ok c =>
          let found := (h.results options i c).run t₁
          (.ok (i, found.1), found.2) := by
  unfold mapped
  rw [ExceptT.run_bind, StateT.run_bind, adapt_run]
  rcases (Registry.resolving (h.classes.resolveInstance []) query.subject).run.run t with
    ⟨e | i, t₁⟩
  · rfl
  · dsimp only
    cases h.classes.named (Unicode.trim query.target) with
    | error e => rfl
    | ok c => rfl

/-- The answer to a query is its subject and its results in writing. -/
theorem answer_run_mapped (h : Hierarchy) (write : Writer) (options : AnswerOptions) (index : Nat)
    (query : Query) (t : Interner) :
    (h.classes.answer write options index query).run.run t =
      match (h.mapped options index query).run.run t with
      | (.error e, t₁) => (.error e, t₁)
      | (.ok (i, rs), t₁) =>
        let printer : TypePrinter :=
          { types := t₁, view := h.classes.view, reasons := options.reasons }
        (.ok ⟨write printer i, Unicode.trim query.target, rs.map (write printer)⟩, t₁) := by
  rw [answer_run, mapped_run]
  rcases (Registry.resolving (h.classes.resolveInstance []) query.subject).run.run t with
    ⟨e | i, t₁⟩
  · rfl
  · dsimp only
    cases h.classes.named (Unicode.trim query.target) with
    | error e => rfl
    | ok c => rfl

/-- Instances without type parameters that are the same are written alike, up to the order of
union members. -/
theorem printed_eq (habreast : Abreast ρ t t')
    (hview : ClassView.Corresponds ρ t t' h.classes.view h'.classes.view) (reasons : Bool)
    (hi : SameInstance ρ t t' i i') (hground : t.ProperInstance h.ground i) :
    Writer.sorted { types := t, view := h.classes.view, reasons } i =
      Writer.sorted { types := t', view := h'.classes.view, reasons } i' := by
  have halike : TypePrinter.Alike ρ.classes { types := t, view := h.classes.view, reasons }
      { types := t', view := h'.classes.view, reasons } := by
    refine ⟨fun d d' hd => ?_, fun _ _ => False.elim, rfl⟩
    obtain ⟨name, hname, hname'⟩ := hview.name? d d' hd
    unfold TypePrinter.className
    rw [hname, hname']
    rfl
  exact TypePrinter.sortedInstanceText_eq habreast.oneToOne.classes habreast.wellFormed
    habreast.wellFormed' halike (hi.classes (fun _ => id) hground)

/-- Reading the subject comes before the rest. -/
theorem subject_le_mapped (h : Hierarchy) (options : AnswerOptions) (index : Nat) (query : Query)
    (t : Interner) :
    ((Registry.resolving (h.classes.resolveInstance []) query.subject).run.run t).2 ≤
      ((h.mapped options index query).run.run t).2 := by
  rw [mapped_run]
  rcases (Registry.resolving (h.classes.resolveInstance []) query.subject).run.run t with
    ⟨e | i, t₁⟩
  · exact t₁.le_refl
  · dsimp only
    cases h.classes.named (Unicode.trim query.target) with
    | error e => exact t₁.le_refl
    | ok c => exact Grows.le_run t₁

/-- Writing adds nothing. -/
theorem answer_tables (h : Hierarchy) (write : Writer) (options : AnswerOptions) (index : Nat)
    (query : Query) (t : Interner) :
    ((h.classes.answer write options index query).run.run t).2 =
      ((h.mapped options index query).run.run t).2 := by
  rw [answer_run_mapped]
  rcases (h.mapped options index query).run.run t with ⟨e | ⟨i, rs⟩, t₁⟩
  · rfl
  · rfl

/-- So it makes no difference to the tables how the answers are written. -/
theorem answersFrom_tables (h : Hierarchy) (write write' : Writer) (options : AnswerOptions)
    (index : Nat) (queries : List Query) (t : Interner) :
    ((h.classes.answersFrom write options index queries).run.run t).2 =
      ((h.classes.answersFrom write' options index queries).run.run t).2 := by
  induction queries generalizing index t with
  | nil => rfl
  | cons query rest ih =>
    cases hfirst : (h.mapped options index query).run.run t with
    | mk found t₁ =>
      have hrun := answer_run_mapped h write options index query t
      have hrun' := answer_run_mapped h write' options index query t
      rw [hfirst] at hrun hrun'
      cases found with
      | error e => rw [answersFrom_run_cons, answersFrom_run_cons, hrun, hrun']
      | ok found =>
        rw [answersFrom_cons_tables (by rw [hrun]), answersFrom_cons_tables (by rw [hrun']), hrun,
          hrun']
        exact ih (index + 1) t₁

instance grows_answer (h : Hierarchy) (write : Writer) (options : AnswerOptions) (index : Nat)
    (query : Query) :
    Grows (h.classes.answer write options index query).run where
  le_run t := by
    rw [answer_tables]
    exact Interner.le_trans (Grows.le_run t) (subject_le_mapped h options index query t)

instance grows_answersFrom (h : Hierarchy) (write : Writer) (options : AnswerOptions) (index : Nat)
    (queries : List Query) : Grows (h.classes.answersFrom write options index queries).run := by
  induction queries generalizing index with
  | nil => exact Grows.except_pure _
  | cons query rest ih =>
    rw [Registry.answersFrom]
    infer_instance

/-- The first answer comes before the others. -/
theorem answer_le_answersFrom (h : Hierarchy) (write : Writer) (options : AnswerOptions)
    (index : Nat) (query : Query) (rest : List Query) (t : Interner) :
    ((h.classes.answer write options index query).run.run t).2 ≤
      ((h.classes.answersFrom write options index (query :: rest)).run.run t).2 := by
  rw [answersFrom_run_cons]
  rcases (h.classes.answer write options index query).run.run t with ⟨e | first, t₁⟩
  · exact t₁.le_refl
  · have hle : t₁ ≤ ((h.classes.answersFrom write options (index + 1) rest).run.run t₁).2 :=
      Grows.le_run t₁
    dsimp only
    rcases hrest : (h.classes.answersFrom write options (index + 1) rest).run.run t₁ with
      ⟨e | others, t₂⟩
    · rwa [hrest] at hle
    · rwa [hrest] at hle

/-- All that a query comes to is without type parameters. -/
theorem grounded_mapped (hp : h.Proper) (hdeclares : h.classes.Declares decls) (hle : h.types ≤ t)
    (hwf : t.WellFormed) (options : AnswerOptions) (index : Nat) (query : Query)
    {rs : List Instance} {t₁ : Interner}
    (hmapped : (h.mapped options index query).run.run t = (.ok (i, rs), t₁)) :
    t₁.ProperInstance h.ground i ∧ ∀ r ∈ rs, t₁.ProperInstance h.ground r := by
  rw [mapped_run] at hmapped
  rcases hrun : (Registry.resolving (h.classes.resolveInstance []) query.subject).run.run t with
    ⟨e | j, t₂⟩
  · rw [hrun] at hmapped
    cases hmapped
  · rw [hrun] at hmapped
    dsimp only at hmapped
    cases hc : h.classes.named (Unicode.trim query.target) with
    | error e =>
      rw [hc] at hmapped
      cases hmapped
    | ok c =>
      rw [hc] at hmapped
      obtain ⟨hfound, rfl⟩ := Prod.mk.inj hmapped
      obtain ⟨rfl, rfl⟩ := Prod.mk.inj (Except.ok.inj hfound)
      obtain ⟨hle₂, hwf₂, -, -⟩ :=
        (Registry.attempt_base hwf (speaks_ground hdeclares) query.subject).of_run hrun
      have hsubject := grounded_subject hdeclares hwf hrun
      have hresults := grounded_results hp options (Interner.le_trans hle hle₂) hwf₂ hsubject
        (contains_of_named hdeclares hc)
      exact ⟨hsubject.of_le hwf₂ hresults.le, fun r hr => (hresults.post r hr).2⟩

section Answering

variable (hcorr : Corresponds ρ h h') (hp : h.Proper) (hp' : h'.Proper)
  (hdeclares : h.classes.Declares decls) (hdeclares' : h'.classes.Declares decls')
  (hle : h.types ≤ t) (hle' : h'.types ≤ t') (hwf : t.WellFormed) (hwf' : t'.WellFormed)

include hcorr hp hp' hdeclares hdeclares' hle hle' hwf hwf'

/-- A query comes to the same instances in both. -/
theorem sameOutcome_mapped (options : AnswerOptions) (index : Nat) (query : Query)
    {m m' : Except QueryError (Instance × List Instance)} {t₂ t₂' : Interner}
    (hmapped : (h.mapped options index query).run.run t = (m, t₂))
    (hmapped' : (h'.mapped options index query).run.run t' = (m', t₂'))
    (hroom : t₂.HasRoom) (hroom' : t₂'.HasRoom) :
    (Abreast ρ t₂ t₂' ∧ ClassView.Corresponds ρ t₂ t₂' h.classes.view h'.classes.view) ∧
    SameOutcome (fun found found' => SameInstance ρ t₂ t₂' found.1 found'.1 ∧
      List.Forall₂ (SameInstance ρ t₂ t₂') found.2 found'.2) m m' := by
  have hgrows := answer_grows hp hdeclares .plain options index query hle hwf
  have hgrows' := answer_grows hp' hdeclares' .plain options index query hle' hwf'
  have hread := Registry.attempt_base hwf (speaks_ground hdeclares) query.subject
  have hread' := Registry.attempt_base hwf' (speaks_ground hdeclares') query.subject
  have hread_le := subject_le_mapped h options index query t
  have hread_le' := subject_le_mapped h' options index query t'
  rw [answer_tables, hmapped] at hgrows
  rw [answer_tables, hmapped'] at hgrows'
  rw [hmapped] at hread_le
  rw [hmapped'] at hread_le'
  have habreast : Abreast ρ t₂ t₂' := ⟨hcorr.oneToOne, hgrows.2, hgrows'.2, hroom, hroom'⟩
  have hview := hcorr.view _ _ (Interner.le_trans hle hgrows.1) (Interner.le_trans hle' hgrows'.1)
    habreast
  refine ⟨⟨habreast, hview⟩, ?_⟩
  -- the subject, as the final tables know it
  have hsubject := Registry.inStep_subject habreast hcorr.registry query.subject _ _
    ((hread.settled.of_le hread_le).finds hgrows.2)
    ((hread'.settled.of_le hread_le').finds hgrows'.2)
  have htarget := hcorr.registry.sameOutcome_named (Unicode.trim query.target)
  rw [mapped_run] at hmapped hmapped'
  have hle₁ := hread.le
  have hle₁' := hread'.le
  have hwf₁ := hread.wellFormed
  have hwf₁' := hread'.wellFormed
  rcases hrun : (Registry.resolving (h.classes.resolveInstance []) query.subject).run.run t with
    ⟨r, t₁⟩
  rcases hrun' : (Registry.resolving (h'.classes.resolveInstance []) query.subject).run.run t' with
    ⟨r', t₁'⟩
  rw [hrun] at hmapped hle₁ hwf₁ hsubject
  rw [hrun'] at hmapped' hle₁' hwf₁' hsubject
  cases hsubject with
  | error e =>
    obtain ⟨rfl, -⟩ := Prod.mk.inj hmapped
    obtain ⟨rfl, -⟩ := Prod.mk.inj hmapped'
    exact .error _
  | @ok i i' hi =>
    dsimp only at hmapped hmapped'
    generalize hc : h.classes.named (Unicode.trim query.target) = target at hmapped htarget
    generalize hc' : h'.classes.named (Unicode.trim query.target) = target' at hmapped' htarget
    cases htarget with
    | error e =>
      obtain ⟨rfl, -⟩ := Prod.mk.inj hmapped
      obtain ⟨rfl, -⟩ := Prod.mk.inj hmapped'
      exact .error _
    | @ok c c' hcc' =>
      obtain ⟨rfl, rfl⟩ := Prod.mk.inj hmapped
      obtain ⟨rfl, rfl⟩ := Prod.mk.inj hmapped'
      have hresults := grounded_results hp options (Interner.le_trans hle hle₁) hwf₁
        (grounded_subject hdeclares hwf hrun) (contains_of_named hdeclares hc)
      have hresults' := grounded_results hp' options (Interner.le_trans hle' hle₁') hwf₁'
        (grounded_subject hdeclares' hwf' hrun') (contains_of_named hdeclares' hc')
      exact .ok ⟨hi, inStep_results habreast hview options hi hcc' _ _
        (hresults.settled.finds hresults.wellFormed) (hresults'.settled.finds hresults'.wellFormed)⟩

/-- A query has the same outcome in both, up to the order of union members. -/
theorem answer_same (options : AnswerOptions) (index : Nat) (query : Query)
    (hroom : ((h.classes.answer .sorted options index query).run.run t).2.HasRoom)
    (hroom' : ((h'.classes.answer .sorted options index query).run.run t').2.HasRoom) :
    ((h.classes.answer .sorted options index query).run.run t).1 =
      ((h'.classes.answer .sorted options index query).run.run t').1 := by
  rw [answer_tables] at hroom hroom'
  rw [answer_run_mapped, answer_run_mapped]
  rcases hmapped : (h.mapped options index query).run.run t with ⟨m, t₂⟩
  rcases hmapped' : (h'.mapped options index query).run.run t' with ⟨m', t₂'⟩
  rw [hmapped] at hroom
  rw [hmapped'] at hroom'
  obtain ⟨⟨habreast, hview⟩, hsame⟩ := sameOutcome_mapped hcorr hp hp' hdeclares hdeclares' hle hle'
    hwf hwf' options index query hmapped hmapped' hroom hroom'
  cases hsame with
  | error e => rfl
  | ok hfound =>
    obtain ⟨hi, hrs⟩ := hfound
    obtain ⟨hground, hgrounds⟩ := grounded_mapped hp hdeclares hle hwf options index query hmapped
    have hresults := map_eq_map_of_forall₂ (forall₂_imp_mem hrs fun j hj _ _ hjj' =>
      (printed_eq habreast hview options.reasons hjj' (hgrounds j hj)).symm)
    dsimp only
    rw [printed_eq habreast hview options.reasons hi hground, hresults]

/-- Queries have the same outcome in both, up to the order of union members, if there is room for
all that answering them interns. -/
theorem answersFrom_same (options : AnswerOptions) (index : Nat) (queries : List Query)
    (hroom : ((h.classes.answersFrom .sorted options index queries).run.run t).2.HasRoom)
    (hroom' : ((h'.classes.answersFrom .sorted options index queries).run.run t').2.HasRoom) :
    ((h.classes.answersFrom .sorted options index queries).run.run t).1 =
      ((h'.classes.answersFrom .sorted options index queries).run.run t').1 := by
  induction queries generalizing index t t' with
  | nil => rfl
  | cons query rest ih =>
    obtain ⟨hle₁, hwf₁⟩ := answer_grows hp hdeclares .sorted options index query hle hwf
    obtain ⟨hle₁', hwf₁'⟩ := answer_grows hp' hdeclares' .sorted options index query hle' hwf'
    have hfirst := answer_same hcorr hp hp' hdeclares hdeclares' hle hle' hwf hwf' options index
      query (hroom.of_le (answer_le_answersFrom h _ options index query rest t))
      (hroom'.of_le (answer_le_answersFrom h' _ options index query rest t'))
    rw [answersFrom_cons_outcome, answersFrom_cons_outcome, ← hfirst]
    cases hok : ((h.classes.answer .sorted options index query).run.run t).1 with
    | error e =>
      show Except.error e = Except.error e
      rfl
    | ok first =>
      rw [answersFrom_cons_tables hok] at hroom
      rw [answersFrom_cons_tables (hfirst.symm.trans hok)] at hroom'
      rw [ih (Interner.le_trans hle hle₁) (Interner.le_trans hle' hle₁') hwf₁ hwf₁' (index + 1)
        hroom hroom']

end Answering

/-- Queries asked first of all have the same answers up to the order of union members, in terms
of the size of the tables. -/
theorem sortedAnswers_eq (hcorr : Corresponds ρ h h') (hp : h.Proper) (hp' : h'.Proper)
    (hdeclares : h.classes.Declares decls) (hdeclares' : h'.classes.Declares decls')
    (options : AnswerOptions) (queries : List Query)
    (hroom : (h.afterAnswers options queries).size ≤ TypeId.maxSlot)
    (hroom' : (h'.afterAnswers options queries).size ≤ TypeId.maxSlot) :
    h.sortedAnswers options queries = h'.sortedAnswers options queries := by
  unfold afterAnswers at hroom hroom'
  rw [answersFrom_tables _ _ .sorted] at hroom hroom'
  exact answersFrom_same hcorr hp hp' hdeclares hdeclares' h.types.le_refl h'.types.le_refl
    hp.wellFormed hp'.wellFormed options 0 queries (hasRoom_of_size hroom) (hasRoom_of_size hroom')

end Hierarchy

end Supertypes
