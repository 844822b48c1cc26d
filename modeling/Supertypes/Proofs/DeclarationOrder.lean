import Supertypes.Proofs.Counterparts

/-!
# The order of declarations

- `WellDeclared.perm`: whether declarations make a hierarchy does not depend on their order.
- `OrderFree`: declarations whose order cannot matter to the shape pass.
- `Hierarchy.answers_perm`: neither do the answers to queries, as long as no class that is below
  another tuple gets its edge to `tuple` from its shape alone.
- `Hierarchy.childFirst_results_differ`: otherwise they may.
-/

namespace Supertypes

open Relation

variable {decls decls' : List ClassDecl}

/-! ## Declarations in another order -/

/-- Among declarations of different names the order does not matter to a search by name. -/
theorem find?_name_perm (hnodup : (decls.map ClassDecl.name).Nodup) (h : decls.Perm decls')
    (name : String) : decls'.find? (·.name = name) = decls.find? (·.name = name) := by
  have hiff : ∀ {ds : List ClassDecl}, (ds.map ClassDecl.name).Nodup → ∀ decl,
      ds.find? (·.name = name) = some decl ↔ decl ∈ ds ∧ decl.name = name := by
    intro ds hds decl
    constructor
    · exact fun hfind => ⟨List.mem_of_find?_eq_some hfind, by simpa using List.find?_some hfind⟩
    · rintro ⟨hmem, hname⟩
      have hsome : (ds.find? (·.name = name)).isSome := by
        rw [List.find?_isSome]
        exact ⟨decl, hmem, by simpa using hname⟩
      obtain ⟨found, hfound⟩ := Option.isSome_iff_exists.mp hsome
      have hname' : found.name = name := by simpa using List.find?_some hfound
      rw [hfound, List.inj_on_of_nodup_map hds (List.mem_of_find?_eq_some hfound) hmem
        (hname'.trans hname.symm)]
  have hnodup' := (h.map ClassDecl.name).nodup_iff.mp hnodup
  refine Option.ext fun decl => ?_
  rw [hiff hnodup' decl, hiff hnodup decl, h.mem_iff]

theorem declaredArity_perm (hnodup : (decls.map ClassDecl.name).Nodup) (h : decls.Perm decls') :
    declaredArity decls' = declaredArity decls := by
  funext name
  unfold declaredArity
  rw [find?_name_perm hnodup h]

theorem declaredBase_perm (hperm : decls.Perm decls') :
    DeclaredBase decls' = DeclaredBase decls := by
  funext name base
  unfold DeclaredBase
  simp only [hperm.mem_iff]

theorem WellDeclared.perm (hwell : WellDeclared decls) (h : decls.Perm decls') :
    WellDeclared decls' where
  names_nodup := (h.map ClassDecl.name).nodup_iff.mp hwell.names_nodup
  not_builtin decl hdecl := hwell.not_builtin decl (h.mem_iff.mpr hdecl)
  params_nodup decl hdecl := hwell.params_nodup decl (h.mem_iff.mpr hdecl)
  bases_mean decl hdecl := by
    rw [declaredArity_perm hwell.names_nodup h]
    exact hwell.bases_mean decl (h.mem_iff.mpr hdecl)
  acyclic := by
    rw [declaredBase_perm h]
    exact hwell.acyclic
  shapes_mean decl hdecl := by
    rw [declaredArity_perm hwell.names_nodup h]
    exact hwell.shapes_mean decl (h.mem_iff.mpr hdecl)

theorem SameDeclarations.of_perm (h : decls.Perm decls') : SameDeclarations decls decls' where
  left decl hdecl := ⟨decl, h.mem_iff.mp hdecl, .refl decl⟩
  right decl hdecl := ⟨decl, h.mem_iff.mpr hdecl, .refl decl⟩
  length := h.length_eq

/-- Declarations whose order cannot matter to the shape pass. -/
structure OrderFree (decls : List ClassDecl) : Prop where
  /-- A class with a shape is a tuple by declared bases if it is below another class with one, so
  that it does not depend on which of them gets its shape first. -/
  tuple_above : ∀ decl ∈ decls, decl.tuple.isSome → ∀ decl' ∈ decls, decl'.tuple.isSome →
    TransGen (DeclaredBase decls) decl.name decl'.name →
      TransGen (DeclaredBase decls) decl.name "tuple"
  /-- The search for recursive shapes gets to the end of each path. -/
  few : (decls.filter (·.tuple.isSome)).length ≤ Limits.shapes

theorem OrderFree.perm (hfree : OrderFree decls) (hperm : decls.Perm decls') :
    OrderFree decls' where
  tuple_above decl hdecl htuple decl' hdecl' htuple' hpath := by
    rw [declaredBase_perm hperm] at hpath ⊢
    exact hfree.tuple_above decl (hperm.mem_iff.mpr hdecl) htuple decl' (hperm.mem_iff.mpr hdecl')
      htuple' hpath
  few := by
    rw [← (hperm.filter _).length_eq]
    exact hfree.few

namespace Hierarchy

section

variable [Digest TypeData] {h h' : Hierarchy} {extra extra' : Nat → List Instance}

/-- Where the order does not matter, a class gets an extra edge just if it needs one. -/
theorem Built.extra_ne_nil_iff (hb : Built decls extra h) (hfree : OrderFree decls) {n : Nat}
    {decl : ClassDecl} (hdecl : decls[n]? = some decl) :
    extra n ≠ [] ↔ decl.tuple.isSome ∧ ¬ TransGen (DeclaredBase decls) decl.name "tuple" := by
  have hiff : ∀ {m decl'}, decls[m]? = some decl' →
      (extra m ≠ [] ↔ NeedsEdge decls extra m decl') :=
    fun hdecl' => hb.extra_iff _ (List.getElem?_eq_some_iff.mp hdecl').1 _ hdecl'
  rw [hiff hdecl]
  constructor
  · exact fun hneeds => ⟨hneeds.tuple, hneeds.no_path⟩
  · rintro ⟨htuple, hpath⟩
    refine ⟨htuple, hpath, fun m _ decl' hdecl' hextra habove => hpath ?_⟩
    exact hfree.tuple_above decl (List.mem_of_getElem? hdecl) htuple decl'
      (List.mem_of_getElem? hdecl') ((hiff hdecl').mp hextra).tuple habove

/-- So it does in every order. -/
theorem Built.sameExtras_of_perm (hb : Built decls extra h) (hb' : Built decls' extra' h')
    (hperm : decls.Perm decls') (hfree : OrderFree decls) :
    SameExtras decls decls' extra extra' := by
  intro n n' decl decl' hdecl hdecl' hname
  have hmem := hperm.mem_iff.mpr (List.mem_of_getElem? hdecl')
  obtain rfl := List.inj_on_of_nodup_map hb.declares.names_nodup hmem
    (List.mem_of_getElem? hdecl) hname
  have hiff' := hb'.extra_ne_nil_iff (hfree.perm hperm) hdecl'
  rw [declaredBase_perm hperm, ← hb.extra_ne_nil_iff hfree hdecl] at hiff'
  exact not_iff_not.mp hiff'.symm

end

/-- Whether declarations make a hierarchy does not depend on their order. -/
theorem ofClasses_perm [Digest TypeData] (h : decls.Perm decls') :
    (∃ built, ofClasses decls = .ok built) ↔ ∃ built, ofClasses decls' = .ok built := by
  rw [(ofClasses_iff decls).1, (ofClasses_iff decls').1]
  exact ⟨fun hwell => hwell.perm h, fun hwell => hwell.perm h.symm⟩

/-- Declarations in another order make a hierarchy too. If their order does not matter to the
shapes, then all queries have the same answers up to the order of union members, as long as the
tables have room for what answering interns. -/
theorem answers_perm [Digest TypeData] (hperm : decls.Perm decls') {h : Hierarchy}
    (hok : ofClasses decls = .ok h) :
    ∃ h', ofClasses decls' = .ok h' ∧ (OrderFree decls → ∀ options queries,
      (h.afterAnswers options queries).size ≤ TypeId.maxSlot →
      (h'.afterAnswers options queries).size ≤ TypeId.maxSlot →
      h.sortedAnswers options queries = h'.sortedAnswers options queries) := by
  obtain ⟨h', hok'⟩ := (ofClasses_perm hperm).mp ⟨h, hok⟩
  obtain ⟨extra, hb⟩ := ofClasses_ok hok
  obtain ⟨extra', hb'⟩ := ofClasses_ok hok'
  refine ⟨h', hok', fun hfree options queries hroom hroom' => ?_⟩
  exact sortedAnswers_eq (hb.corresponds hb' (.of_perm hperm)
    (hb.sameExtras_of_perm hb' hperm hfree) hfree.few (hfree.perm hperm).few) hb.toProper
    hb'.toProper hb.declares hb'.declares options queries hroom hroom'

/-- A tuple below another one, both of which have been declared below `tuple`. -/
def namedTuples : List ClassDecl :=
  [{ name := "Pixel", bases := ["Point"], tuple := some "(int, int)" },
    { name := "Point", bases := ["tuple[float]"], tuple := some "(float, float)" },
    { name := "int", bases := ["float"] }, { name := "float" }]

theorem orderFree_namedTuples : OrderFree namedTuples where
  tuple_above decl hdecl htuple _ _ _ _ := by
    have hpoint : DeclaredBase namedTuples "Point" "tuple" :=
      ⟨_, .tail _ (.head _), rfl, _, .head _, [.name "float" []], by rfl⟩
    have hpixel : DeclaredBase namedTuples "Pixel" "Point" :=
      ⟨_, .head _, rfl, _, .head _, [], by rfl⟩
    have hcases : decl.name = "Pixel" ∨ decl.name = "Point" := by
      unfold namedTuples at hdecl
      simp only [List.mem_cons, List.not_mem_nil, or_false] at hdecl
      rcases hdecl with rfl | rfl | rfl | rfl
      · exact .inl rfl
      · exact .inr rfl
      · cases htuple
      · cases htuple
    rcases hcases with hname | hname
    · rw [hname]
      exact .tail (.single hpixel) hpoint
    · rw [hname]
      exact .single hpoint
  few := by decide

/-- The tuple above may come first or last. -/
theorem namedTuples_answers : namedTuples.Perm namedTuples.reverse ∧ OrderFree namedTuples ∧
    ∃ h h', ofClasses namedTuples = .ok h ∧ ofClasses namedTuples.reverse = .ok h' ∧
      h.sortedAnswers { all := true } [⟨"Pixel", "tuple"⟩] =
        h'.sortedAnswers { all := true } [⟨"Pixel", "tuple"⟩] := by
  have hperm : namedTuples.Perm namedTuples.reverse := (List.reverse_perm _).symm
  have hroom : ∀ ds ∈ [namedTuples, namedTuples.reverse],
      ((ofClasses ds).toOption.map fun h =>
        decide ((h.afterAnswers { all := true } [⟨"Pixel", "tuple"⟩]).size ≤ TypeId.maxSlot)) =
          some true := by
    decide +kernel
  obtain ⟨h, hok, hsize⟩ := Option.map_eq_some_iff.mp (hroom _ (.head _))
  obtain ⟨h₁, hok₁, hsize₁⟩ := Option.map_eq_some_iff.mp (hroom _ (.tail _ (.head _)))
  obtain ⟨h', hok', hanswers⟩ := answers_perm hperm (ok_of_toOption hok)
  obtain rfl : h₁ = h' := Except.ok.inj ((ok_of_toOption hok₁).symm.trans hok')
  exact ⟨hperm, orderFree_namedTuples, h, h₁, ok_of_toOption hok, hok',
    hanswers orderFree_namedTuples _ _ (of_decide_eq_true hsize) (of_decide_eq_true hsize₁)⟩

/-- A tuple below another one, declared before it. -/
def childFirst : List ClassDecl :=
  [{ name := "Child", bases := ["Parent"], tuple := some "(str,)" },
    { name := "Parent", tuple := some "(int,)" }, { name := "int" }, { name := "str" }]

/-- The same declarations, the class below after the one above. -/
def parentFirst : List ClassDecl :=
  [{ name := "Parent", tuple := some "(int,)" },
    { name := "Child", bases := ["Parent"], tuple := some "(str,)" }, { name := "int" },
    { name := "str" }]

/-- The texts of the results of one query. -/
def resultsOf [Digest TypeData] (decls : List ClassDecl) (options : AnswerOptions) (query : Query) :
    Option (List (List String)) :=
  (ofClasses decls).toOption.bind fun h =>
    (h.answers options [query]).toOption.map fun answers => answers.map Answer.results

/-- When its shape is set before that of the class above, a class gets an edge to `tuple` of its
own. -/
theorem childFirst_results_differ : childFirst.Perm parentFirst ∧
    resultsOf childFirst { all := true } ⟨"Child", "tuple"⟩ = some [["tuple[int]", "tuple[str]"]] ∧
    resultsOf parentFirst { all := true } ⟨"Child", "tuple"⟩ = some [["tuple[int]"]] :=
  ⟨.swap _ _ _, by decide +kernel, by decide +kernel⟩

end Hierarchy

end Supertypes
