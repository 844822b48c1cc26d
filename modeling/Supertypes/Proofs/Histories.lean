import Supertypes.Proofs.AnswersInStep

/-!
# Answers and what has been asked before

- `Renaming.unchanged`: every class and every parameter is its own counterpart. With it
  `Interner.Same` says that handles of two tables stand for the same structure.
- `Hierarchy.Request`: what a session may be asked between two queries. `Hierarchy.after` is what
  it has interned after some requests, and `Hierarchy.after_grows` says that requests only add.
- `Hierarchy.ofClasses_answers_after`: what has been asked before makes no difference to the
  answers, as long as no shard is full.
-/

namespace Supertypes

open Interner

/-! ## The same types in two tables -/

/-- Every class and every parameter of a registry is its own counterpart. -/
def Renaming.unchanged (r : Registry) : Renaming where
  cls c c' := c = c' ∧ r.contains c = true
  param p p' := p = p'

theorem Renaming.oneToOne_unchanged (r : Registry) : (unchanged r).OneToOne where
  cls := by
    rintro c d c' d' ⟨rfl, -⟩ ⟨rfl, -⟩
    exact Iff.rfl
  param := by
    rintro p q p' q' rfl rfl
    exact Iff.rfl
  id := by
    rintro p q p' q' rfl rfl
    exact Iff.rfl

section

variable [Digest TypeData]

namespace Interner

variable {r : Registry} {V : Vocabulary} {t₀ t t' : Interner}

section Unchanged

variable (hV : ∀ c n, V.takes c n → r.contains c = true) (hwf : t₀.WellFormed) (hle : t₀ ≤ t)
  (hle' : t₀ ≤ t')

include hV hwf hle hle'

/-- A type stands for the same structure in all later tables. -/
theorem Proper.same {x : TypeId} (hx : t₀.Proper V x) : Same (.unchanged r) t t' x x := by
  induction hx with
  | leaf hid _ => exact .leaf hid
  | param hdata _ => exact .param (lookup_of_le hle hdata) (lookup_of_le hle' hdata) rfl
  | inst hdata htakes _ ih =>
    have hissued : t₀.IssuedData (.inst _) := hwf.issuedData_of_lookup hdata
    refine .of_data (lookup_of_le hle hdata) (lookup_of_le hle' hdata) (.inst
      ⟨IssuedList.of_le hissued hle, IssuedList.of_le hissued hle', ⟨rfl, hV _ _ htakes⟩, ?_⟩)
    rw [IssuedList.args_eq hissued hle, IssuedList.args_eq hissued hle']
    exact List.forall₂_same.mpr ih
  | tuple hdata _ ih =>
    have hissued : t₀.IssuedData (.tuple _) := hwf.issuedData_of_lookup hdata
    refine .of_data (lookup_of_le hle hdata) (lookup_of_le hle' hdata) (.tuple ?_)
    rw [IssuedElements.elementList_eq hissued hle, IssuedElements.elementList_eq hissued hle']
    exact List.forall₂_same.mpr fun e he => ⟨rfl, ih e he⟩
  | union hdata hnormal hmembers ih =>
    have hissued : t₀.IssuedData (.union _) := hwf.issuedData_of_lookup hdata
    have hmember : ∀ m ∈ _, t₀.Issued m := fun m hm => (hmembers m hm).issued
    refine .of_data (lookup_of_le hle hdata) (lookup_of_le hle' hdata) (.union ?_ ?_ ?_)
    · rw [IssuedList.typeList_eq hissued hle]
      exact hnormal.of_le hmember hle
    · rw [IssuedList.typeList_eq hissued hle']
      exact hnormal.of_le hmember hle'
    · rw [IssuedList.typeList_eq hissued hle, IssuedList.typeList_eq hissued hle']
      exact .of_forall₂ (List.forall₂_same.mpr ih)

theorem ProperInstance.same {i : Instance} (hi : t₀.ProperInstance V i) :
    SameInstance (.unchanged r) t t' i i where
  issued := hi.issued.of_le hle
  issued' := hi.issued.of_le hle'
  head := ⟨rfl, hV _ _ hi.takes⟩
  args := by
    rw [hi.issued.args_eq hle, hi.issued.args_eq hle']
    exact List.forall₂_same.mpr fun a ha => (hi.args a ha).same hV hwf hle hle'

end Unchanged

end Interner

namespace Hierarchy

variable {decls : List ClassDecl} {h : Hierarchy} {t t' : Interner}

omit [Digest TypeData] in
theorem registered_of_takes {c d : ClassId} {n : Nat} (htakes : (h.vocabulary c).takes d n) :
    h.classes.contains d = true :=
  htakes.1

/-- A hierarchy looks the same whatever types are interned later. -/
theorem Proper.corresponds_self (hp : h.Proper) (hdeclares : h.classes.Declares decls) :
    Corresponds (.unchanged h.classes) h h where
  oneToOne := Renaming.oneToOne_unchanged h.classes
  -- with itself: a class corresponds to itself, as long as it is registered
  registry := {
    lookup := by
      intro name
      cases hc : h.classes.lookup name with
      | none => exact .none
      | some c => exact .some ⟨rfl, hdeclares.contains_of_lookup hc⟩
    params := by
      rintro c _ ⟨rfl, -⟩
      exact List.forall₂_same.mpr fun _ _ => rfl }
  -- what the mapper reads is made of issued types, which later tables read alike
  view t t' hle hle' _ := {
    name? := by
      rintro c _ ⟨rfl, hc⟩
      obtain ⟨info, hinfo⟩ := Option.isSome_iff_exists.mp hc
      have hname : h.classes.view.name? c = some info.name := congrArg (Option.map _) hinfo
      exact ⟨info.name, hname, hname⟩
    params := by
      rintro c _ ⟨rfl, -⟩
      exact List.forall₂_same.mpr fun _ _ => rfl
    bases := by
      rintro c _ ⟨rfl, -⟩
      exact List.forall₂_same.mpr fun base hbase =>
        (hp.bases_proper c base hbase).same (fun _ _ => registered_of_takes) hp.wellFormed hle
          hle'
    shape? := by
      rintro c _ ⟨rfl, -⟩
      show Option.Rel _ (h.classes.shape? c) (h.classes.shape? c)
      cases hshape : h.classes.shape? c with
      | none => exact .none
      | some shape =>
        refine .some ⟨List.forall₂_same.mpr fun e he => ⟨rfl, ?_⟩, rfl⟩
        exact (hp.shapes_proper c shape hshape e he).same (fun _ _ => registered_of_takes)
          hp.wellFormed hle hle'
    tuple := ⟨rfl, hp.tuple_unary.1⟩
    size := rfl }

end Hierarchy

/-! ## Resolving any expression -/

namespace Interner

variable {α β ε : Type} {t : Interner} {P : α → Interner → Prop} {Q : β → Interner → Prop}

/-- The answer satisfies `P`, if there is one. -/
def IfOk (P : α → Interner → Prop) (out : Except ε α) (t : Interner) : Prop :=
  ∀ a, out = .ok a → P a t

theorem ifOk_throw (hwf : t.WellFormed) (e : ε) :
    Repeatable t (throw e : ExceptT ε Interning α).run (IfOk P) :=
  .pure hwf fun _ h => nomatch h

theorem ifOk_lift {x : Interning α} (hx : Repeatable t x P) :
    Repeatable t (ExceptT.lift x : ExceptT ε Interning α).run (IfOk P) := by
  show Repeatable t (Except.ok <$> x) _
  rw [map_eq_pure_bind]
  exact hx.bind fun a t' _ hwf' _ ha => .pure hwf' fun b hb => Except.ok.inj hb ▸ ha

/-- A sequence of actions that may fail adds only what is known of its parts. -/
theorem ifOk_bind {x : ExceptT ε Interning α} {f : α → ExceptT ε Interning β}
    (hx : Repeatable t x.run (IfOk P))
    (hf : ∀ a t', t ≤ t' → t'.WellFormed → P a t' → Repeatable t' (f a).run (IfOk Q)) :
    Repeatable t (x >>= f).run (IfOk Q) := by
  rw [ExceptT.run_bind]
  refine hx.bind ?_
  rintro (e | a) t' hle hwf' _ ha
  · exact ifOk_throw hwf' e
  · exact hf a t' hle hwf' (ha a rfl)

theorem ifOk_mapM {f : α → ExceptT ε Interning β} (hQ : Repeatable.Lasting Q)
    (hwf : t.WellFormed) {xs : List α}
    (hf : ∀ a ∈ xs, ∀ t', t'.WellFormed → Repeatable t' (f a).run (IfOk Q)) :
    Repeatable t (xs.mapM f).run (IfOk fun ys t' => ∀ y ∈ ys, Q y t') := by
  induction xs generalizing t with
  | nil =>
    refine .pure hwf fun ys hys y hy => ?_
    obtain rfl := Except.ok.inj hys
    exact absurd hy List.not_mem_nil
  | cons a xs ih =>
    rw [List.mapM_cons]
    refine ifOk_bind (hf a List.mem_cons_self t hwf) fun y t₁ _ hwf₁ hy => ?_
    refine ifOk_bind (ih hwf₁ fun b hb => hf b (List.mem_cons_of_mem _ hb)) ?_
    intro ys t₂ hle₂ hwf₂ hys
    refine .pure hwf₂ fun zs hzs z hz => ?_
    obtain rfl := Except.ok.inj hzs
    rcases List.mem_cons.mp hz with rfl | hz
    · exact hQ _ t₁ t₂ hwf₁ hle₂ hy
    · exact hys z hz

end Interner

namespace Registry

variable {r : Registry} {scope : Scope} {t : Interner}

theorem lasting_issued : Repeatable.Lasting fun (id : TypeId) t => t.Issued id :=
  fun _ _ _ _ hle h => h.of_le hle

/-- Applying a class to issued arguments yields an instance with issued arguments. -/
theorem issued_resolveApplied (hwf : t.WellFormed) {name : String} {count : Nat}
    {args : Resolving (List TypeId)}
    (hargs : Repeatable t args.run (IfOk fun ids t' => ∀ id ∈ ids, t'.Issued id)) :
    Repeatable t (r.resolveApplied scope name count args).run
      (IfOk fun i t' => t'.IssuedList i.args) := by
  cases hfind : scope.find name with
  | some p =>
    rw [resolveApplied_of_param (by rw [hfind]; rfl)]
    exact ifOk_throw hwf _
  | none =>
    cases hc : r.lookup name with
    | none =>
      rw [resolveApplied_of_unknown hfind hc]
      exact ifOk_throw hwf _
    | some c =>
      rw [resolveApplied_of_class hfind hc]
      split
      · refine ifOk_lift ((repeatable_apply hwf c fun a ha => ?_).mono fun _ _ _ _ _ h => h.2.1)
        rw [List.eq_of_mem_replicate ha]
        exact issued_any .unannotated
      · split
        · exact ifOk_throw hwf _
        · exact ifOk_bind hargs fun ids t' _ hwf' hids =>
            ifOk_lift ((repeatable_apply hwf' c hids).mono fun _ _ _ _ _ h => h.2.1)

/-- Resolving an expression in a scope, be it one that a text has or not. -/
theorem issued_resolve (hwf : t.WellFormed) (e : TypeExpr) :
    Repeatable t (r.resolve scope e).run (IfOk fun id t' => t'.Issued id) := by
  induction e using TypeExpr.induct generalizing t with
  | name head args ih =>
    rcases applied_or_plain scope head args with hplain | ⟨plain, rfl, hplain⟩
    · -- a name of a class; its arguments have been issued by induction
      rw [resolve_applied hplain, resolveList_eq]
      refine ifOk_bind (issued_resolveApplied hwf
        (ifOk_mapM lasting_issued hwf fun a ha t' hwf' => ih a ha hwf')) ?_
      intro i t' _ hwf' hi
      have hdata : t'.IssuedData (.inst i) := hi
      exact ifOk_lift ((repeatable_intern hwf' hdata).mono fun _ _ _ _ _ h => h.1)
    · rw [resolve_plain hplain]
      refine ifOk_lift ?_
      -- a parameter, `Any` or `Never`
      rcases resolvePlain_eq_some hplain with ⟨p, -, rfl⟩ | ⟨-, ⟨-, rfl⟩ | ⟨-, rfl⟩⟩
      · have hdata : t.IssuedData (.param p) := trivial
        exact (repeatable_intern hwf hdata).mono fun _ _ _ _ _ h => h.1
      · exact .pure hwf (issued_any .explicit)
      · exact .pure hwf issued_never
  | tuple elements ih =>
    rw [resolve, resolveElements_eq]
    have hlasting : Repeatable.Lasting fun (e : Element TypeId) t => t.Issued e.item :=
      fun _ _ _ _ hle h => h.of_le hle
    refine ifOk_bind (ifOk_mapM hlasting hwf fun e he t' hwf' => ?_) ?_
    · exact ifOk_bind (ih e he hwf') fun id t'' _ hwf'' hid =>
        .pure hwf'' fun e' he' => Except.ok.inj he' ▸ hid
    · exact fun es t' _ hwf' hes =>
        ifOk_lift ((repeatable_tuple hwf' hes).mono fun _ _ _ _ _ h => h.1)
  | union members ih =>
    rw [resolve, resolveList_eq]
    refine ifOk_bind (ifOk_mapM lasting_issued hwf fun m hm t' hwf' => ih m hm hwf') ?_
    exact fun ids t' _ hwf' hids =>
      ifOk_lift ((repeatable_union hwf' hids).mono fun _ _ _ _ _ h => h.1)

theorem issued_resolveInstance (hwf : t.WellFormed) (e : TypeExpr) :
    Repeatable t (r.resolveInstance scope e).run (IfOk fun i t' => t'.IssuedList i.args) := by
  cases e with
  | name head args =>
    rw [resolveInstance, resolveList_eq]
    exact issued_resolveApplied hwf
      (ifOk_mapM lasting_issued hwf fun a _ _ hwf' => issued_resolve hwf' a)
  | tuple => exact ifOk_throw hwf _
  | union => exact ifOk_throw hwf _

end Registry

end

/-! ## Histories -/

namespace Hierarchy

variable {decls : List ClassDecl} {h : Hierarchy} {t t' : Interner}

/-- What a session may be asked between two queries. -/
inductive Request
  | ask (options : AnswerOptions) (queries : List Query)
  | resolve (scope : Scope) (e : TypeExpr)
  | resolveInstance (scope : Scope) (e : TypeExpr)

section

variable [Digest TypeData]

/-- The tables after a request, be it answered or refused. -/
def perform (h : Hierarchy) (t : Interner) : Request → Interner
  | .ask options queries => ((h.classes.answersFrom .plain options 0 queries).run.run t).2
  | .resolve scope e => ((h.classes.resolve scope e).run.run t).2
  | .resolveInstance scope e => ((h.classes.resolveInstance scope e).run.run t).2

/-- The tables after some requests. -/
def after (h : Hierarchy) (requests : List Request) : Interner :=
  requests.foldl h.perform h.types

/-- There are answers if there is a first one and there are others after it. -/
theorem answersFrom_cons_eq_ok_iff {r : Registry} {write : Writer} {options : AnswerOptions}
    {index : Nat} {query : Query} {rest : List Query} {answers : List Answer} :
    ((r.answersFrom write options index (query :: rest)).run.run t).1 = .ok answers ↔
      ∃ first others, ((r.answer write options index query).run.run t).1 = .ok first ∧
        ((r.answersFrom write options (index + 1) rest).run.run
          ((r.answer write options index query).run.run t).2).1 = .ok others ∧
        answers = first :: others := by
  rw [answersFrom_run_cons]
  rcases (r.answer write options index query).run.run t with ⟨e | first, t₁⟩
  · simp
  · dsimp only
    rcases (r.answersFrom write options (index + 1) rest).run.run t₁ with ⟨e | others, t₂⟩
    · simp
    · simp [eq_comm]

/-- A query has the same answer alone, where its number is 0. -/
theorem answersFrom_one (h : Hierarchy) (write : Writer) (options : AnswerOptions) (index : Nat)
    (query : Query) (t : Interner) :
    (∀ answer, ((h.classes.answersFrom write options 0 [query]).run.run t).1 = .ok [answer] ↔
      ((h.classes.answer write options index query).run.run t).1 = .ok answer) ∧
    ((h.classes.answersFrom write options 0 [query]).run.run t).2 =
      ((h.classes.answer write options index query).run.run t).2 := by
  rw [answersFrom_run_cons, answer_run, answer_run]
  rcases (Registry.resolving (h.classes.resolveInstance []) query.subject).run.run t with
    ⟨e | i, t₁⟩
  · exact ⟨fun _ => iff_of_false (fun heq => nomatch heq) (fun heq => nomatch heq), rfl⟩
  · dsimp only
    cases h.classes.named (Unicode.trim query.target) with
    | error e =>
      exact ⟨fun _ => iff_of_false (fun heq => nomatch heq) (fun heq => nomatch heq), rfl⟩
    | ok c =>
      refine ⟨fun answer => ?_, rfl⟩
      show Except.ok [_] = Except.ok [_] ↔ Except.ok _ = Except.ok _
      simp only [Except.ok.injEq, List.cons.injEq, and_true]

section Answering

variable (hp : h.Proper) (hdeclares : h.classes.Declares decls)

include hp hdeclares

/-- No request takes anything away from the tables. -/
theorem perform_grows (request : Request) (hle : h.types ≤ t) (hwf : t.WellFormed) :
    t ≤ h.perform t request ∧ (h.perform t request).WellFormed := by
  cases request with
  | ask options queries => exact answersFrom_grows hp hdeclares _ options 0 queries hle hwf
  | resolve scope e =>
    have hrun : Repeatable t (h.classes.resolve scope e).run (IfOk fun id t' => t'.Issued id) :=
      Registry.issued_resolve hwf e
    exact ⟨hrun.le, hrun.wellFormed⟩
  | resolveInstance scope e =>
    have hrun : Repeatable t (h.classes.resolveInstance scope e).run
        (IfOk fun i t' => t'.IssuedList i.args) :=
      Registry.issued_resolveInstance hwf e
    exact ⟨hrun.le, hrun.wellFormed⟩

/-- Requests only add to the tables. -/
theorem after_grows (requests : List Request) :
    h.types ≤ h.after requests ∧ (h.after requests).WellFormed := by
  unfold after
  -- from any later tables
  suffices hgen : ∀ t, h.types ≤ t → t.WellFormed →
      h.types ≤ requests.foldl h.perform t ∧ (requests.foldl h.perform t).WellFormed from
    hgen h.types h.types.le_refl hp.wellFormed
  induction requests with
  | nil => exact fun t hle hwf => ⟨hle, hwf⟩
  | cons request requests ih =>
    intro t hle hwf
    obtain ⟨hle', hwf'⟩ := perform_grows hp hdeclares request hle hwf
    exact ih _ (Interner.le_trans hle hle') hwf'

/-- A list of queries has answers just if each query has its answer alone. -/
theorem answersFrom_alone (options : AnswerOptions) (index : Nat) (queries : List Query)
    (answers : List Answer) (hle : h.types ≤ t) (hle' : h.types ≤ t') (hwf : t.WellFormed)
    (hwf' : t'.WellFormed)
    (hroom : ((h.classes.answersFrom .sorted options index queries).run.run t).2.HasRoom)
    (hroom' : ∀ query ∈ queries,
      ((h.classes.answersFrom .sorted options 0 [query]).run.run t').2.HasRoom) :
    ((h.classes.answersFrom .sorted options index queries).run.run t).1 = .ok answers ↔
      List.Forall₂ (fun query answer =>
        ((h.classes.answersFrom .sorted options 0 [query]).run.run t').1 = .ok [answer])
        queries answers := by
  induction queries generalizing index t answers with
  | nil =>
    rw [List.forall₂_nil_left_iff]
    exact ⟨fun heq => (Except.ok.inj heq).symm, fun heq => congrArg Except.ok heq.symm⟩
  | cons query rest ih =>
    -- the first question by itself, and then the others after it
    obtain ⟨hroom₁', hrooms'⟩ := List.forall_mem_cons.mp hroom'
    obtain ⟨hle₁, hwf₁⟩ := answer_grows hp hdeclares .sorted options index query hle hwf
    obtain ⟨halone, htables⟩ := answersFrom_one h .sorted options index query t'
    have hfirst := answer_same (hp.corresponds_self hdeclares) hp hp hdeclares hdeclares hle hle'
      hwf hwf' options index query
      (hroom.of_le (answer_le_answersFrom h _ options index query rest t)) (htables ▸ hroom₁')
    have hrest : ∀ first others,
        ((h.classes.answer .sorted options index query).run.run t).1 = .ok first → _ :=
      fun first others hok => ih (index + 1) others (Interner.le_trans hle hle₁) hwf₁
        (answersFrom_cons_tables hok rest ▸ hroom) hrooms'
    rw [answersFrom_cons_eq_ok_iff, List.forall₂_cons_left_iff]
    constructor
    · rintro ⟨first, others, hok, hothers, rfl⟩
      exact ⟨first, others, (halone first).mpr (hfirst ▸ hok),
        (hrest first others hok).mp hothers, rfl⟩
    · rintro ⟨first, others, hok, hothers, rfl⟩
      have hok' := hfirst.trans ((halone first).mp hok)
      exact ⟨first, others, hok', (hrest first others hok').mpr hothers, rfl⟩

end Answering

/-- What a session has been asked before makes no difference to what a query comes to, to the
texts of the answers up to the order of union members, or to whether they are asked for one by
one, as long as no shard is full: only then does a type that is new in one of the histories
become an error `Any`. -/
theorem ofClasses_answers_after (hok : ofClasses decls = .ok h) (before before' : List Request)
    (options : AnswerOptions) :
    (∀ index query m m' t t', (h.mapped options index query).run.run (h.after before) = (m, t) →
      (h.mapped options index query).run.run (h.after before') = (m', t') →
      t.HasRoom → t'.HasRoom →
      SameOutcome (fun found found' => SameInstance (.unchanged h.classes) t t' found.1 found'.1 ∧
        List.Forall₂ (SameInstance (.unchanged h.classes) t t') found.2 found'.2) m m') ∧
    (∀ index queries,
      let run := (h.classes.answersFrom .sorted options index queries).run.run (h.after before)
      let run' := (h.classes.answersFrom .sorted options index queries).run.run (h.after before')
      run.2.HasRoom → run'.2.HasRoom → run.1 = run'.1) ∧
    ∀ queries answers,
      let run := (h.classes.answersFrom .sorted options 0 queries).run.run (h.after before)
      let alone := fun query =>
        (h.classes.answersFrom .sorted options 0 [query]).run.run (h.after before')
      run.2.HasRoom → (∀ query ∈ queries, (alone query).2.HasRoom) →
      (run.1 = .ok answers ↔
        List.Forall₂ (fun query answer => (alone query).1 = .ok [answer]) queries answers) := by
  -- both histories only add to the tables of the hierarchy
  obtain ⟨extra, hb⟩ := ofClasses_ok hok
  have hp := hb.toProper
  have hcorr := hp.corresponds_self hb.declares
  obtain ⟨hle, hwf⟩ := after_grows hp hb.declares before
  obtain ⟨hle', hwf'⟩ := after_grows hp hb.declares before'
  refine ⟨?_, ?_, ?_⟩
  · intro index query m m' t t' hmapped hmapped' hroom hroom'
    exact (sameOutcome_mapped hcorr hp hp hb.declares hb.declares hle hle' hwf hwf' options index
      query hmapped hmapped' hroom hroom').2
  · intro index queries run run' hroom hroom'
    exact answersFrom_same hcorr hp hp hb.declares hb.declares hle hle' hwf hwf' options index
      queries hroom hroom'
  · intro queries answers run alone hroom hroom'
    exact answersFrom_alone hp hb.declares options 0 queries answers hle hle' hwf hwf' hroom hroom'

end

/-- Classes to make unions of. -/
def boxDecls : List ClassDecl :=
  [{ name := "Box", params := ["T"], bases := ["tuple[T]"] }, { name := "int" }, { name := "str" }]

/-- The handles of `int` and `str` may be issued in either order. -/
def strFirst : List Request :=
  [.resolve [] (.name "str" []), .resolve [] (.name "int" []), .ask {} [⟨"Box[str]", "object"⟩]]

/-- Questions about a union. -/
def boxQueries : List Query :=
  [⟨"Box[int | str]", "tuple"⟩, ⟨"Box", "object"⟩]

/-- What is answered to them. -/
def boxAnswers : List Answer :=
  [⟨"Box[int | str]", "tuple", ["tuple[int | str]"]⟩, ⟨"Box[Any]", "object", ["object"]⟩]

theorem strFirst_answers : ∃ h, ofClasses boxDecls = .ok h ∧
    let run :=
      (h.classes.answersFrom .sorted { all := true } 0 boxQueries).run.run (h.after strFirst)
    let run' := (h.classes.answersFrom .sorted { all := true } 0 boxQueries).run.run (h.after [])
    run.1 = .ok boxAnswers ∧ run.1 = run'.1 ∧
      List.Forall₂ (fun query answer =>
        ((h.classes.answersFrom .sorted { all := true } 0 [query]).run.run (h.after [])).1 =
          .ok [answer])
        boxQueries boxAnswers := by
  have hrun : ((ofClasses boxDecls).toOption.map fun h =>
      let run :=
        (h.classes.answersFrom .sorted { all := true } 0 boxQueries).run.run (h.after strFirst)
      let run' := (h.classes.answersFrom .sorted { all := true } 0 boxQueries).run.run (h.after [])
      decide (run.1.toOption = some boxAnswers ∧ run.2.size ≤ TypeId.maxSlot ∧
        run'.2.size ≤ TypeId.maxSlot ∧ ∀ query ∈ boxQueries,
          ((h.classes.answersFrom .sorted { all := true } 0 [query]).run.run (h.after [])).2.size ≤
            TypeId.maxSlot)) = some true := by
    decide +kernel
  obtain ⟨h, hok, hdecided⟩ := Option.map_eq_some_iff.mp hrun
  obtain ⟨hanswers, hsize, hsize', hsizes⟩ := of_decide_eq_true hdecided
  obtain ⟨-, htexts, hone⟩ :=
    ofClasses_answers_after (ok_of_toOption hok) strFirst [] { all := true }
  have hrooms := fun query hquery => hasRoom_of_size (hsizes query hquery)
  refine ⟨h, ok_of_toOption hok, ok_of_toOption hanswers, ?_, ?_⟩
  · exact htexts 0 boxQueries (hasRoom_of_size hsize) (hasRoom_of_size hsize')
  · exact (hone boxQueries boxAnswers (hasRoom_of_size hsize) hrooms).mp (ok_of_toOption hanswers)

end Hierarchy

end Supertypes
