import Supertypes.Proofs.BuildingInStep
import Supertypes.Proofs.DeclaredShapes
import Supertypes.Proofs.Histories
import Supertypes.Proofs.RoundTrip

/-!
# Words that are types of their own

An expression is read in two ways: for the instance that it denotes, and for the type.

- `TypeExpr.reserved?`: the bare words `Any` and `Never`, which mean a type and not a class.
- `Registry.resolve_eq_bind`: the type of any other expression that denotes an instance is that
  of the instance. `Registry.resolve_reserved`: a reserved word denotes its type, whatever the
  classes.
- `Hierarchy.ofClasses_resolve_as_instance`: in a session both ways agree, except for a reserved
  word that is the name of a declared class. Reading for an instance does not know the reserved
  words, and such a declaration is not refused.
-/

namespace Supertypes

open Interner

variable {e : TypeExpr} {id : TypeId} {i : Instance} {scope : Scope} {t t₁ t₂ : Interner}

/-- The type that a bare word denotes by itself. -/
def TypeExpr.reserved? : TypeExpr → Option TypeId
  | .name word [] =>
    if word = "Any" then some (.any .explicit)
    else if word = "Never" then some .never
    else none
  | _ => none

/-- A reserved word is written without arguments, and its type is intrinsic. -/
theorem TypeExpr.reserved?_eq_some (h : e.reserved? = some id) :
    ∃ word, e = .name word [] ∧ (word = "Any" ∨ word = "Never") ∧ id.isIntrinsic = true := by
  unfold reserved? at h
  split at h
  · rename_i word
    split at h
    · obtain rfl := Option.some.inj h
      exact ⟨word, rfl, .inl ‹_›, rfl⟩
    · split at h
      · obtain rfl := Option.some.inj h
        exact ⟨word, rfl, .inr ‹_›, rfl⟩
      · cases h
  · cases h

section

variable [Digest TypeData]

namespace Registry

variable {r : Registry} {name : String} {args : List TypeExpr}

/-! ## Both ways of reading -/

/-- Without a parameter of the name, a bare word that is not reserved has to be a class. -/
theorem resolvePlain_eq (hfree : scope.find name = none) :
    resolvePlain scope name = (TypeExpr.name name []).reserved?.map pure := by
  unfold resolvePlain TypeExpr.reserved?
  rw [hfree]
  by_cases hany : name = "Any"
  · simp [hany]
  · by_cases hnever : name = "Never"
    · simp [hnever]
    · simp [hany, hnever]

/-- An expression that denotes an instance is a name that no parameter has and some class has. -/
theorem name_of_resolveInstance
    (hrun : (r.resolveInstance scope e).run.run t = (.ok i, t₁)) :
    ∃ name args c, e = .name name args ∧ scope.find name = none ∧ r.lookup name = some c := by
  cases e with
  | name name args =>
    rw [resolveInstance] at hrun
    cases hfind : scope.find name with
    | some p =>
      rw [resolveApplied_of_param (by rw [hfind]; rfl)] at hrun
      cases hrun
    | none =>
      cases hc : r.lookup name with
      | none =>
        rw [resolveApplied_of_unknown hfind hc] at hrun
        cases hrun
      | some c => exact ⟨name, args, c, rfl, hfind, hc⟩
  | tuple elements => cases hrun
  | union members => cases hrun

/-- Read for its type, a name that is not reserved is read for the instance first. -/
theorem resolve_eq_bind (hfree : scope.find name = none)
    (hplain : (TypeExpr.name name args).reserved? = none) :
    r.resolve scope (.name name args) =
      r.resolveInstance scope (.name name args) >>= fun i => ExceptT.lift (inst i) := by
  refine resolve_applied fun hargs => ?_
  subst hargs
  rw [resolvePlain_eq hfree, hplain]
  rfl

theorem resolve_reserved (hfree : scope.find name = none)
    (hword : (TypeExpr.name name []).reserved? = some id) (t : Interner) :
    (r.resolve scope (.name name [])).run.run t = (.ok id, t) := by
  have hplain := resolvePlain_eq hfree
  rw [hword] at hplain
  rw [resolve_plain hplain]
  rfl

/-- If an instance has been read, reading the same for its type answers the type of the instance,
at once or at any later time. -/
theorem resolve_of_resolveInstance (hwf : t.WellFormed) (hplain : e.reserved? = none)
    (hrun : (r.resolveInstance scope e).run.run t = (.ok i, t₁)) :
    (r.resolve scope e).run.run t = (.ok ((inst i).run t₁).1, ((inst i).run t₁).2) ∧
      ∀ t₂, t₁ ≤ t₂ → t₂.WellFormed →
        (r.resolve scope e).run.run t₂ = (.ok ((inst i).run t₂).1, ((inst i).run t₂).2) := by
  obtain ⟨name, args, c, rfl, hfree, -⟩ := name_of_resolveInstance hrun
  obtain ⟨-, -, hsettled, -⟩ := (issued_resolveInstance hwf _).of_run hrun
  rw [resolve_eq_bind hfree hplain, ExceptT.run_bind]
  refine ⟨?_, fun t₂ hle hwf₂ => ?_⟩
  · rw [StateT.run_bind, hrun]
    rfl
  · rw [StateT.run_bind, hsettled t₂ hle hwf₂]
    rfl

end Registry

/-! ## Sessions -/

/-- With room in the tables, the type of an instance is no intrinsic type. -/
theorem Interner.inst_ne_intrinsic (hwf : t.WellFormed) (hi : t.IssuedList i.args)
    (hroom : ((inst i).run t).2.HasRoom) (hid : id.isIntrinsic = true) :
    ((inst i).run t).1 ≠ id := by
  have hdata : t.IssuedData (.inst i) := hi
  have hinst := repeatable_intern hwf hdata
  have hlookup := Finds.intern hinst.wellFormed hroom (by simp) (by simp)
    (hinst.settled _ (Interner.le_refl _) hinst.wellFormed)
  rintro rfl
  rcases data_of_intrinsic hid hlookup with heq | ⟨reason, heq⟩
  · cases heq
  · cases heq

end

namespace Hierarchy

variable {decls : List ClassDecl} {h : Hierarchy}

/-- In a session, whatever has been interned, let an expression denote an instance in some scope.
Unless it is a reserved word, it denotes the type of the instance, at once and at any later time.
If it is a reserved word, then a class of that name has been declared, and the expression denotes
the type of the word, which is another one as long as the tables have room. -/
theorem ofClasses_resolve_as_instance [Digest TypeData] (hok : ofClasses decls = .ok h)
    (hwf : t.WellFormed) (hrun : (h.classes.resolveInstance scope e).run.run t = (.ok i, t₁)) :
    (e.reserved? = none →
      (h.classes.resolve scope e).run.run t =
          (.ok ((inst i).run t₁).1, ((inst i).run t₁).2) ∧
        ∀ t₂, t₁ ≤ t₂ → t₂.WellFormed →
          (h.classes.resolve scope e).run.run t₂ =
            (.ok ((inst i).run t₂).1, ((inst i).run t₂).2)) ∧
    (∀ id, e.reserved? = some id →
      (∃ decl ∈ decls, e = .name decl.name []) ∧
        ∀ t₂, t₁ ≤ t₂ → t₂.WellFormed →
          (h.classes.resolve scope e).run.run t₂ = (.ok id, t₂) ∧
            (((inst i).run t₂).2.HasRoom → ((inst i).run t₂).1 ≠ id)) := by
  refine ⟨fun hplain => Registry.resolve_of_resolveInstance hwf hplain hrun, ?_⟩
  intro id hword
  -- a reserved word is read as an instance only as the name of a class
  obtain ⟨word, rfl, hwords, hintrinsic⟩ := TypeExpr.reserved?_eq_some hword
  obtain ⟨name, args, c, heq, hfree, hc⟩ := Registry.name_of_resolveInstance hrun
  obtain ⟨rfl, rfl⟩ := TypeExpr.name.inj heq
  obtain ⟨-, -, -, hissued⟩ := (Registry.issued_resolveInstance hwf _).of_run hrun
  constructor
  · -- no built-in class has the name
    obtain ⟨extra, hb⟩ := ofClasses_ok hok
    have hdeclared : word ∈ decls.map ClassDecl.name := by
      by_contra hnew
      have hobject : word ≠ "object" := by rcases hwords with rfl | rfl <;> decide
      have htuple : word ≠ "tuple" := by rcases hwords with rfl | rfl <;> decide
      rw [hb.declares.lookup_eq_none hobject htuple hnew] at hc
      cases hc
    obtain ⟨decl, hdecl, rfl⟩ := List.mem_map.mp hdeclared
    exact ⟨decl, hdecl, rfl⟩
  · intro t₂ hle hwf₂
    exact ⟨Registry.resolve_reserved hfree hword t₂, fun hroom =>
      inst_ne_intrinsic hwf₂ ((hissued i rfl).of_le hle) hroom hintrinsic⟩

theorem pair_resolve_as_instance :
    ∃ h i t₁, ofClasses pairDecls = .ok h ∧
      (h.classes.resolveInstance [] (.name "Pair" [.name "Any" []])).run.run h.types = (.ok i, t₁) ∧
      (h.classes.resolve [] (.name "Pair" [.name "Any" []])).run.run h.types =
        (.ok ((inst i).run t₁).1, ((inst i).run t₁).2) := by
  let reading := fun h : Hierarchy =>
    (h.classes.resolveInstance [] (.name "Pair" [.name "Any" []])).run.run h.types
  have hrun : ((ofClasses pairDecls).toOption.bind fun h =>
      (reading h).1.toOption.map Instance.head) = some ⟨4⟩ := by
    decide +kernel
  obtain ⟨h, hok, hrun⟩ := Option.bind_eq_some_iff.mp hrun
  obtain ⟨i, hi, -⟩ := Option.map_eq_some_iff.mp hrun
  have hread : reading h = (.ok i, (reading h).2) := run_eq_of_toOption hi
  obtain ⟨extra, hb⟩ := ofClasses_ok (ok_of_toOption hok)
  exact ⟨h, i, (reading h).2, ok_of_toOption hok, hread,
    ((ofClasses_resolve_as_instance (ok_of_toOption hok) hb.wellFormed hread).1 rfl).1⟩

/-- A class that has the name of a reserved word. -/
def anyDecls : List ClassDecl :=
  [{ name := "Any" }]

/-- The bare word denotes an instance of the class, and a type that is not that of the
instance. -/
theorem any_resolved_apart :
    ∃ h, ofClasses anyDecls = .ok h ∧
      ((h.classes.resolveInstance [] (.name "Any" [])).run.run h.types).1 = .ok (.bare ⟨3⟩) ∧
      ((h.classes.resolve [] (.name "Any" [])).run.run h.types).1 = .ok (.any .explicit) ∧
      ((inst (.bare ⟨3⟩)).run h.types).1 ≠ .any .explicit := by
  let reading := fun h : Hierarchy =>
    ((h.classes.resolveInstance [] (.name "Any" [])).run.run h.types).1.toOption
  let typed := fun h : Hierarchy =>
    ((h.classes.resolve [] (.name "Any" [])).run.run h.types).1.toOption
  have hrun : ((ofClasses anyDecls).toOption.map fun h => decide (reading h = some (.bare ⟨3⟩) ∧
      typed h = some (.any .explicit) ∧
      ((inst (.bare ⟨3⟩)).run h.types).1 ≠ .any .explicit)) = some true := by
    decide +kernel
  obtain ⟨h, hok, hrun⟩ := Option.map_eq_some_iff.mp hrun
  obtain ⟨hinstance, htype, hne⟩ := of_decide_eq_true hrun
  exact ⟨h, ok_of_toOption hok, ok_of_toOption hinstance, ok_of_toOption htype, hne⟩

end Hierarchy

end Supertypes
