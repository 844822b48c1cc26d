import Supertypes.Expr.Resolve
import Supertypes.Proofs.ProperTypes
import Supertypes.Proofs.Spelling

/-!
# What type expressions mean

- `Interner.Attempt t x cond post`: an action that may fail. It succeeds just under `cond`, it
  can be repeated, and its answer satisfies `post`.
- `TypeExpr.Meaningful` and `TypeExpr.MeansInstance`: the expressions that denote a type, and
  those that denote an instance, given the classes with their numbers of parameters and the names
  of the parameters in scope.
- `Registry.attempt_resolve` and `Registry.attempt_resolveInstance`: these are the expressions
  that are resolved, and what they denote is made of the vocabulary of the registry, which
  `Registry.SpeaksTypes` and `Registry.Speaks` describe.
- `Registry.resolve_congr`: a registry is asked for nothing but its names and parameters.
-/

namespace Supertypes

/-! ## Actions that may fail -/

variable [Digest TypeData]

namespace Interner

variable {α β ε : Type} {t : Interner} {cond cond' : Prop}

/-- Run from `t`, the action is repeatable. It succeeds if and only if `cond` holds, and then its
answer satisfies `post`. -/
def Attempt (t : Interner) (x : ExceptT ε Interning α) (cond : Prop)
    (post : α → Interner → Prop) : Prop :=
  Repeatable t x.run fun r t' =>
    match r with
    | .ok a => cond ∧ post a t'
    | .error _ => ¬ cond

namespace Attempt

variable {x : ExceptT ε Interning α} {P Q : α → Interner → Prop}

/-- Plain answers are no failures. -/
theorem pure (hwf : t.WellFormed) {a : α} (hcond : cond) (ha : P a t) :
    Attempt t (Pure.pure a : ExceptT ε Interning α) cond P :=
  Repeatable.pure hwf ⟨hcond, ha⟩

/-- An error is a failure. -/
theorem throw (hwf : t.WellFormed) {e : ε} (hcond : ¬ cond) :
    Attempt t (throw e : ExceptT ε Interning α) cond P :=
  Repeatable.pure hwf hcond

/-- What cannot fail. -/
theorem lift {y : Interning α} (hy : Repeatable t y P) (hcond : cond) :
    Attempt t (ExceptT.lift y : ExceptT ε Interning α) cond P := by
  show Repeatable t (Except.ok <$> y) _
  rw [map_eq_pure_bind]
  exact hy.bind fun _ _ _ hwf _ ha => .pure hwf ⟨hcond, ha⟩

/-- The condition may be put in other words. -/
theorem congr (hx : Attempt t x cond P) (h : cond ↔ cond') : Attempt t x cond' P := by
  obtain rfl := propext h
  exact hx

/-- The outcome may be weakened. -/
theorem mono (hx : Attempt t x cond P)
    (h : ∀ a t', t ≤ t' → t'.WellFormed → P a t' → Q a t') : Attempt t x cond Q := by
  refine Repeatable.mono hx ?_
  intro r t' hle hwf _ hr
  cases r with
  | ok a => exact ⟨hr.1, h a t' hle hwf hr.2⟩
  | error e => exact hr

/-- Two attempts, one after the other: both conditions have to hold. -/
theorem bind {f : α → ExceptT ε Interning β} {R : β → Interner → Prop} (hx : Attempt t x cond P)
    (hf : ∀ a t', t ≤ t' → t'.WellFormed → P a t' → Attempt t' (f a) cond' R) :
    Attempt t (x >>= f) (cond ∧ cond') R := by
  unfold Attempt
  rw [ExceptT.run_bind]
  refine Repeatable.bind hx ?_
  intro r t' hle hwf _ hr
  cases r with
  | ok a =>
    refine Repeatable.mono (hf a t' hle hwf hr.2) ?_
    intro r' t'' _ _ _ hr'
    cases r' with
    | ok b => exact ⟨⟨hr.1, hr'.1⟩, hr'.2⟩
    | error e => exact fun hboth => hr' hboth.2
  | error e => exact .pure hwf fun hboth => hr hboth.1

/-- What comes after always succeeds. -/
theorem bindTrue {f : α → ExceptT ε Interning β} {R : β → Interner → Prop} (hx : Attempt t x cond P)
    (hf : ∀ a t', t ≤ t' → t'.WellFormed → P a t' → Attempt t' (f a) True R) :
    Attempt t (x >>= f) cond R :=
  congr (bind hx hf) (and_true cond).to_iff

/-- What comes after cannot fail. -/
theorem bindLift {f : α → Interning β} {R : β → Interner → Prop} (hx : Attempt t x cond P)
    (hf : ∀ a t', t ≤ t' → t'.WellFormed → P a t' → Repeatable t' (f a) R) :
    Attempt t (x >>= fun a => ExceptT.lift (f a)) cond R := by
  exact bindTrue hx fun a t' hle hwf ha => lift (hf a t' hle hwf ha) trivial

/-- Trying each entry of a list in turn. -/
theorem mapM {f : α → ExceptT ε Interning β} {c : α → Prop} {P : α → β → Interner → Prop}
    (hP : ∀ a, Repeatable.Lasting (P a)) (hwf : t.WellFormed) {xs : List α}
    (hf : ∀ a ∈ xs, ∀ t', t ≤ t' → t'.WellFormed → Attempt t' (f a) (c a) (P a)) :
    Attempt t (xs.mapM f) (∀ a ∈ xs, c a)
      fun ys t' => List.Forall₂ (fun a b => P a b t') xs ys := by
  induction xs generalizing t with
  | nil => exact pure hwf (by simp) .nil
  | cons a xs ih =>
    rw [List.mapM_cons]
    -- the first entry, then the others from the tables that it leaves
    refine congr (bind (hf a List.mem_cons_self t t.le_refl hwf) ?_) List.forall_mem_cons.symm
    intro b t₁ hle₁ hwf₁ hb
    refine bindTrue (ih hwf₁ fun d hd t' hle =>
      hf d (List.mem_cons_of_mem _ hd) t' (Interner.le_trans hle₁ hle)) ?_
    intro ys t₂ hle₂ hwf₂ hys
    exact pure hwf₂ trivial (.cons (hP a b t₁ t₂ hwf₁ hle₂ hb) hys)

/-- What an answer says. -/
theorem of_ok (hx : Attempt t x cond P) {a : α} {t' : Interner}
    (hrun : x.run.run t = (.ok a, t')) : cond ∧ P a t' := by
  have hpost := Repeatable.post hx
  rwa [hrun] at hpost

end Attempt

end Interner

/-! ## Expressions with a meaning -/

namespace TypeExpr

omit [Digest TypeData] in
/-- Induction over an expression and the expressions in it. -/
@[elab_as_elim]
theorem induct {P : TypeExpr → Prop}
    (name : ∀ head args, (∀ a ∈ args, P a) → P (.name head args))
    (tuple : ∀ elements, (∀ e ∈ elements, P e.item) → P (.tuple elements))
    (union : ∀ members, (∀ m ∈ members, P m) → P (.union members)) : ∀ e, P e
  | .name head args => name head args fun a _ => induct name tuple union a
  | .tuple elements => tuple elements fun e _ => induct name tuple union e.item
  | .union members => union members fun m _ => induct name tuple union m
termination_by e => sizeOf e
decreasing_by
  · exact Nat.lt_of_lt_of_le (List.sizeOf_lt_of_mem ‹_›) (by simp)
  · exact sizeOf_item_lt ‹_›
  · exact Nat.lt_of_lt_of_le (List.sizeOf_lt_of_mem ‹_›) (by simp)

/-- A class of this name may be applied to so many arguments: as many as it has parameters, or
none. The names of parameters in scope are no class names. -/
def Applies (arity : String → Option Nat) (params : List String) (name : String) (count : Nat) :
    Prop :=
  name ∉ params ∧ ∃ n, arity name = some n ∧ (count = 0 ∨ count = n)

/-- The expression denotes a type, where `arity` gives the classes their numbers of parameters
and `params` are the names of the parameters in scope. -/
inductive Meaningful (arity : String → Option Nat) (params : List String) : TypeExpr → Prop
  | param {name : String} (h : name ∈ params) : Meaningful arity params (.name name [])
  | any : Meaningful arity params (.name "Any" [])
  | never : Meaningful arity params (.name "Never" [])
  | applied {name : String} {args : List TypeExpr} (h : Applies arity params name args.length)
    (hargs : ∀ a ∈ args, Meaningful arity params a) : Meaningful arity params (.name name args)
  | tuple {elements : List (Element TypeExpr)}
    (hitems : ∀ e ∈ elements, Meaningful arity params e.item) :
    Meaningful arity params (.tuple elements)
  | union {members : List TypeExpr} (hmembers : ∀ m ∈ members, Meaningful arity params m) :
    Meaningful arity params (.union members)

/-- The expression denotes an instance. -/
inductive MeansInstance (arity : String → Option Nat) (params : List String) : TypeExpr → Prop
  | applied {name : String} {args : List TypeExpr} (h : Applies arity params name args.length)
    (hargs : ∀ a ∈ args, Meaningful arity params a) : MeansInstance arity params (.name name args)

/-- The expression denotes a tuple. -/
inductive MeansTuple (arity : String → Option Nat) (params : List String) : TypeExpr → Prop
  | tuple {elements : List (Element TypeExpr)}
    (hitems : ∀ e ∈ elements, Meaningful arity params e.item) :
    MeansTuple arity params (.tuple elements)

/-- The text spells an expression with a meaning. -/
def Parses (source : String) (means : TypeExpr → Prop) : Prop :=
  ∃ e, parse source = .ok e ∧ means e

end TypeExpr

omit [Digest TypeData] in
theorem Scope.find_eq_none_iff {scope : Scope} {name : String} :
    scope.find name = none ↔ name ∉ scope.map Param.name := by
  unfold Scope.find
  simp only [List.find?_eq_none, decide_eq_true_iff, List.mem_map, not_exists, not_and]

omit [Digest TypeData] in
theorem Scope.find_isSome_iff {scope : Scope} {name : String} :
    (scope.find name).isSome = true ↔ name ∈ scope.map Param.name := by
  rw [← not_iff_not, Option.not_isSome_iff_eq_none, find_eq_none_iff]

namespace Registry

open Interner TypeExpr

variable {r r' : Registry} {scope : Scope} {V : Vocabulary} {t : Interner}

/-- The number of parameters of the class of a name. -/
def arity (r : Registry) (name : String) : Option Nat :=
  (r.lookup name).map fun c => (r.params c).length

/-! ## Steps of the resolution -/

/-- Resolving a list is resolving its members in order. -/
theorem resolveList_eq (r : Registry) (scope : Scope) (es : List TypeExpr) :
    r.resolveList scope es = es.mapM (r.resolve scope) := by
  induction es with
  | nil => rfl
  | cons e es ih => rw [resolveList, List.mapM_cons, ih]

/-- Resolving elements is resolving their items in order. -/
theorem resolveElements_eq (r : Registry) (scope : Scope) (es : List (Element TypeExpr)) :
    r.resolveElements scope es =
      es.mapM fun e => return ⟨← r.resolve scope e.item, e.isRest⟩ := by
  induction es with
  | nil => rfl
  | cons e es ih =>
    rw [resolveElements, List.mapM_cons, ih]
    simp

/-- A name without arguments that is no class name. -/
theorem resolve_plain {name : String} {plain : Interning TypeId}
    (h : resolvePlain scope name = some plain) :
    r.resolve scope (.name name []) = ExceptT.lift plain := by
  rw [resolve]
  simp [h]

/-- A name with arguments is no plain type, and without arguments it may be one. -/
theorem applied_or_plain (scope : Scope) (name : String) (args : List TypeExpr) :
    (args = [] → resolvePlain scope name = none) ∨
      ∃ plain, args = [] ∧ resolvePlain scope name = some plain := by
  cases hplain : resolvePlain scope name with
  | none => exact .inl fun _ => rfl
  | some plain =>
    cases args with
    | nil => exact .inr ⟨plain, rfl, rfl⟩
    | cons a args => exact .inl fun hnil => absurd hnil (List.cons_ne_nil a args)

/-- A name that is no plain type denotes the type of the instance that it denotes. -/
theorem resolve_applied {name : String} {args : List TypeExpr}
    (h : args = [] → resolvePlain scope name = none) :
    r.resolve scope (.name name args) =
      r.resolveApplied scope name args.length (r.resolveList scope args) >>= fun i =>
        ExceptT.lift (Interner.inst i) := by
  rw [resolve]
  split
  · rename_i hargs
    rw [h (List.isEmpty_iff.mp hargs)]
  · rfl

omit [Digest TypeData] in
/-- A type parameter is no class, whatever arguments it is given. -/
theorem resolveApplied_of_param {name : String} {count : Nat} {args : Resolving (List TypeId)}
    (h : (scope.find name).isSome = true) :
    r.resolveApplied scope name count args = throw (.notAClass name) := by
  unfold resolveApplied
  rw [if_pos h]
  rfl

omit [Digest TypeData] in
/-- A name that no class has denotes nothing. -/
theorem resolveApplied_of_unknown {name : String} {count : Nat} {args : Resolving (List TypeId)}
    (h : scope.find name = none) (hc : r.lookup name = none) :
    r.resolveApplied scope name count args = throw (.unknownClass name) := by
  unfold resolveApplied named
  rw [h, hc]
  rfl

omit [Digest TypeData] in
/-- What is made of a class, by the number of arguments that it is written with. -/
theorem resolveApplied_of_class {name : String} {count : Nat} {args : Resolving (List TypeId)}
    {c : ClassId} (h : scope.find name = none) (hc : r.lookup name = some c) :
    r.resolveApplied scope name count args =
      if count = 0 ∧ 0 < (r.params c).length then
        ExceptT.lift (Interner.apply c
          (List.replicate (r.params c).length (.any .unannotated)))
      else if count ≠ (r.params c).length then
        throw (.wrongArity name (r.params c).length count)
      else args >>= fun ids => ExceptT.lift (Interner.apply c ids) := by
  have hclass : resolveApplied.liftExcept (r.named name) = (pure c : Resolving ClassId) := by
    unfold named
    rw [hc]
    rfl
  unfold resolveApplied
  rw [h, hclass]
  simp only [Option.isSome_none, Bool.false_eq_true, if_false, pure_bind]
  split
  · rfl
  · split
    · rfl
    · rfl

/-! ## Resolution -/

/-- The types that are built in the terms of a registry and a scope are made of the
vocabulary. -/
structure SpeaksTypes (r : Registry) (scope : Scope) (V : Vocabulary) : Prop where
  param : ∀ name p, Token.IsWord name → scope.find name = some p → V.param p
  explicit : scope.find "Any" = none → V.leaf (.any .explicit)
  never : scope.find "Never" = none → V.leaf .never
  unannotated : V.leaf (.any .unannotated)
  /-- A class without parameters is not denoted by a name that means something else. -/
  takes : ∀ name c, Token.IsWord name → scope.find name = none → r.lookup name = some c →
    ((r.params c).length = 0 → resolvePlain scope name = none) → V.takes c (r.params c).length

/-- The instances are so too. -/
structure Speaks (r : Registry) (scope : Scope) (V : Vocabulary) : Prop extends
    SpeaksTypes r scope V where
  heads : ∀ name c, scope.find name = none → r.lookup name = some c → V.takes c (r.params c).length

/-- A class applied to arguments. -/
theorem attempt_resolveApplied (hwf : t.WellFormed) (hunannotated : V.leaf (.any .unannotated))
    {name : String} {count : Nat} {args : Resolving (List TypeId)} {cond : Prop}
    (htakes : ∀ c, scope.find name = none → r.lookup name = some c →
      (count = 0 ∨ count = (r.params c).length) → V.takes c (r.params c).length)
    (hcount : count = 0 → cond)
    (hargs : Attempt t args cond fun ids t' =>
      ids.length = count ∧ ∀ id ∈ ids, Conforms V id t') :
    Attempt t (r.resolveApplied scope name count args)
      (Applies r.arity (scope.map Param.name) name count ∧ cond)
      fun i t' => r.lookup name = some i.head ∧ ConformsInstance V i t' := by
  cases hfind : scope.find name with
  | some p =>
    have hsome : (scope.find name).isSome = true := by rw [hfind]; rfl
    rw [resolveApplied_of_param hsome]
    exact .throw hwf fun h => h.1.1 (Scope.find_isSome_iff.mp hsome)
  | none =>
    -- no parameter: the name is that of a class, or of nothing
    have hname : name ∉ scope.map Param.name := Scope.find_eq_none_iff.mp hfind
    cases hc : r.lookup name with
    | none =>
      rw [resolveApplied_of_unknown hfind hc]
      refine .throw hwf ?_
      rintro ⟨⟨-, n, hn, -⟩, -⟩
      rw [arity, hc] at hn
      cases hn
    | some c =>
      -- a class: what matters is how many arguments it gets
      have harity : r.arity name = some (r.params c).length := by rw [arity, hc]; rfl
      rw [resolveApplied_of_class hfind hc]
      split
      · -- a generic class without arguments
        rename_i hbare
        have htakes' := htakes c hfind hc (.inl hbare.1)
        refine .lift ((conforms_apply hwf (by rwa [List.length_replicate]) ?_).mono ?_) ?_
        · intro a ha
          rw [List.eq_of_mem_replicate ha]
          exact (Proper.leaf (by simp) hunannotated).conforms
        · rintro i t' _ _ _ ⟨rfl, -, hi⟩
          exact ⟨rfl, hi⟩
        · exact ⟨⟨hname, _, harity, .inl hbare.1⟩, hcount hbare.1⟩
      · rename_i hbare
        split
        · rename_i hne
          refine .throw hwf ?_
          rintro ⟨⟨-, n, hn, hfits⟩, -⟩
          rw [harity] at hn
          obtain rfl := Option.some.inj hn
          omega
        · -- as many arguments as there are parameters
          rename_i heq
          have heq' : count = (r.params c).length := not_not.mp heq
          have htakes' := htakes c hfind hc (.inr heq')
          refine .congr (.bindLift hargs fun ids t' hle hwf' hids => ?_) ?_
          · refine (conforms_apply hwf' (by rwa [hids.1, heq']) hids.2).mono ?_
            rintro i t'' _ _ _ ⟨rfl, -, hi⟩
            exact ⟨rfl, hi⟩
          · exact (and_iff_right ⟨hname, _, harity, .inr heq'⟩).symm

/-- A list of expressions is resolved if all of its members are. -/
theorem attempt_resolveList (hwf : t.WellFormed) {es : List TypeExpr}
    {c : TypeExpr → Prop} (h : ∀ e ∈ es, ∀ t', t ≤ t' → t'.WellFormed →
      Attempt t' (r.resolve scope e) (c e) (Conforms V)) :
    Attempt t (r.resolveList scope es) (∀ e ∈ es, c e) fun ids t' =>
      ids.length = es.length ∧ ∀ id ∈ ids, Conforms V id t' := by
  rw [resolveList_eq]
  refine (Attempt.mapM (P := fun _ => Conforms V) (fun _ => lasting_conforms V) hwf h).mono ?_
  intro ids t' _ _ hids
  refine ⟨hids.length_eq.symm, fun id hid => ?_⟩
  obtain ⟨_, -, hconforms⟩ := exists_of_mem_right hids hid
  exact hconforms

/-- The elements of a tuple are resolved if all of its items are. -/
theorem attempt_resolveElements (hwf : t.WellFormed) {es : List (Element TypeExpr)}
    {c : TypeExpr → Prop} (h : ∀ e ∈ es, ∀ t', t ≤ t' → t'.WellFormed →
      Attempt t' (r.resolve scope e.item) (c e.item) (Conforms V)) :
    Attempt t (r.resolveElements scope es) (∀ e ∈ es, c e.item) fun items t' =>
      ∀ e ∈ items, Conforms V e.item t' := by
  rw [resolveElements_eq]
  have hlasting : Repeatable.Lasting fun (e : Element TypeId) t' => Conforms V e.item t' :=
    fun e => lasting_conforms V e.item
  refine (Attempt.mapM (c := fun e : Element TypeExpr => c e.item)
    (P := fun _ e t' => Conforms V e.item t')
    (fun _ => hlasting) hwf ?_).mono ?_
  · intro e he t' hle hwf'
    refine .bindTrue (h e he t' hle hwf') ?_
    exact fun id t'' _ hwf'' hid => .pure hwf'' trivial hid
  · intro items t' _ _ hitems e he
    obtain ⟨_, -, hconforms⟩ := exists_of_mem_right hitems he
    exact hconforms

theorem resolvePlain_of_find {name : String} {p : Param} (h : scope.find name = some p) :
    resolvePlain scope name = some (Interner.param p) := by
  unfold resolvePlain
  rw [h]

theorem resolvePlain_any (h : scope.find "Any" = none) :
    resolvePlain scope "Any" = some (pure (.any .explicit)) := by
  unfold resolvePlain
  rw [h]
  rfl

theorem resolvePlain_never (h : scope.find "Never" = none) :
    resolvePlain scope "Never" = some (pure .never) := by
  unfold resolvePlain
  rw [h]
  rfl

/-- The names that are types of their own. -/
theorem resolvePlain_eq_some {name : String} {plain : Interning TypeId}
    (h : resolvePlain scope name = some plain) :
    (∃ p, scope.find name = some p ∧ plain = Interner.param p) ∨
      scope.find name = none ∧ (name = "Any" ∧ plain = pure (.any .explicit) ∨
        name = "Never" ∧ plain = pure .never) := by
  unfold resolvePlain at h
  split at h
  · rename_i p hfind
    exact .inl ⟨p, hfind, (Option.some.inj h).symm⟩
  · rename_i hfind
    split at h
    · rename_i hany
      exact .inr ⟨hfind, .inl ⟨hany, (Option.some.inj h).symm⟩⟩
    · split at h
      · rename_i hnever
        exact .inr ⟨hfind, .inr ⟨hnever, (Option.some.inj h).symm⟩⟩
      · cases h

/-- All others are names of classes, if anything. -/
theorem resolvePlain_eq_none {name : String} (h : resolvePlain scope name = none) :
    scope.find name = none ∧ name ≠ "Any" ∧ name ≠ "Never" := by
  unfold resolvePlain at h
  split at h
  · cases h
  · rename_i hfind
    split at h
    · cases h
    · rename_i hany
      split at h
      · cases h
      · rename_i hnever
        exact ⟨hfind, hany, hnever⟩

/-- The meaning of a name that is a type of its own. -/
theorem attempt_plain (hwf : t.WellFormed) (hspeaks : r.SpeaksTypes scope V) {name : String}
    (hword : Token.IsWord name) {plain : Interning TypeId}
    (hplain : resolvePlain scope name = some plain) :
    Attempt t (ExceptT.lift plain : Resolving TypeId)
      (Meaningful r.arity (scope.map Param.name) (.name name [])) (Conforms V) := by
  rcases resolvePlain_eq_some hplain with
    ⟨p, hfind, rfl⟩ | ⟨hfind, ⟨rfl, rfl⟩ | ⟨rfl, rfl⟩⟩
  · refine .lift (conforms_param hwf (hspeaks.param name p hword hfind)) (.param ?_)
    exact Scope.find_isSome_iff.mp (by rw [hfind]; rfl)
  · have hleaf := hspeaks.explicit hfind
    exact .lift (.pure hwf (Proper.leaf (by simp) hleaf).conforms) .any
  · have hleaf := hspeaks.never hfind
    exact .lift (.pure hwf (Proper.leaf rfl hleaf).conforms) .never

/-- Other names have to apply to their arguments. -/
theorem meaningful_name_iff {arity : String → Option Nat} {name : String} {args : List TypeExpr}
    (hplain : args = [] → resolvePlain scope name = none) :
    Meaningful arity (scope.map Param.name) (.name name args) ↔
      Applies arity (scope.map Param.name) name args.length ∧
        ∀ a ∈ args, Meaningful arity (scope.map Param.name) a := by
  constructor
  · intro h
    cases h with
    | param h => exact absurd h (Scope.find_eq_none_iff.mp (resolvePlain_eq_none (hplain rfl)).1)
    | any => exact absurd rfl (resolvePlain_eq_none (hplain rfl)).2.1
    | never => exact absurd rfl (resolvePlain_eq_none (hplain rfl)).2.2
    | applied h hargs => exact ⟨h, hargs⟩
  · rintro ⟨h, hargs⟩
    exact .applied h hargs

/-- The meaning of a spelled expression. -/
theorem attempt_resolve (hwf : t.WellFormed) (hspeaks : r.SpeaksTypes scope V) {e : TypeExpr}
    (he : e.Spelled) :
    Attempt t (r.resolve scope e) (Meaningful r.arity (scope.map Param.name) e) (Conforms V) := by
  induction he generalizing t with
  | @name name args hword _ ih =>
    rcases applied_or_plain scope name args with hplain | ⟨plain, rfl, hplain⟩
    · -- a name that is no plain type is that of a class, with or without arguments
      rw [resolve_applied hplain]
      refine .congr (.bindLift (attempt_resolveApplied hwf hspeaks.unannotated ?_ ?_
        (attempt_resolveList hwf fun a ha t' _ hwf' => ih a ha hwf')) ?_)
        (meaningful_name_iff hplain).symm
      · intro c hfind hc hfits
        refine hspeaks.takes name c hword hfind hc fun hnullary => hplain ?_
        exact List.length_eq_zero_iff.mp (by omega)
      · intro hcount a ha
        rw [List.length_eq_zero_iff.mp hcount] at ha
        exact absurd ha List.not_mem_nil
      · exact fun i t' _ hwf' hi => conforms_inst hwf' hi.2
    · rw [resolve_plain hplain]
      exact attempt_plain hwf hspeaks hword hplain
  | @tuple elements _ ih =>
    rw [resolve]
    refine .congr (.bindLift (attempt_resolveElements hwf fun e he t' _ hwf' => ih e he hwf')
      fun items t' _ hwf' hitems => conforms_tuple hwf' hitems) ?_
    constructor
    · exact fun h => .tuple h
    · rintro ⟨h⟩
      assumption
  | @union members htwo _ _ ih =>
    rw [resolve]
    refine .congr (.bindLift (attempt_resolveList hwf fun m hm t' _ hwf' => ih m hm hwf')
      fun ids t' _ hwf' hids => conforms_union hwf' hids.2 ?_) ?_
    · rintro rfl
      have hlen := hids.1
      rw [List.length_nil] at hlen
      omega
    · constructor
      · exact fun h => .union h
      · rintro ⟨h⟩
        assumption

/-- The instance that a spelled expression denotes. -/
theorem attempt_resolveInstance (hwf : t.WellFormed) (hspeaks : r.Speaks scope V) {e : TypeExpr}
    (he : e.Spelled) :
    Attempt t (r.resolveInstance scope e) (MeansInstance r.arity (scope.map Param.name) e)
      fun i t' => (∃ name args, e = .name name args ∧ r.lookup name = some i.head) ∧
        ConformsInstance V i t' := by
  cases he with
  | @name name args _ hargs =>
    rw [resolveInstance]
    have hlist := attempt_resolveList hwf fun a ha t' _ hwf' =>
      attempt_resolve (t := t') hwf' hspeaks.toSpeaksTypes (hargs a ha)
    refine .congr ((attempt_resolveApplied hwf hspeaks.unannotated ?_ ?_ hlist).mono ?_) ?_
    · exact fun c hfind hc _ => hspeaks.heads name c hfind hc
    · intro hcount a ha
      rw [List.length_eq_zero_iff.mp hcount] at ha
      exact absurd ha List.not_mem_nil
    · rintro i t' _ _ ⟨hlookup, hi⟩
      exact ⟨⟨name, args, rfl, hlookup⟩, hi⟩
    · constructor
      · rintro ⟨h, hargs⟩
        exact .applied h hargs
      · rintro ⟨h, hargs⟩
        exact ⟨h, hargs⟩
  | tuple => exact .throw hwf fun h => by cases h
  | union => exact .throw hwf fun h => by cases h

/-- The elements of the tuple that a spelled expression denotes. -/
theorem attempt_resolveTuple (hwf : t.WellFormed) (hspeaks : r.SpeaksTypes scope V) {e : TypeExpr}
    (he : e.Spelled) :
    Attempt t (r.resolveTuple scope e) (MeansTuple r.arity (scope.map Param.name) e)
      fun items t' => ∀ e ∈ items, Conforms V e.item t' := by
  cases he with
  | name => exact .throw hwf fun h => by cases h
  | @tuple elements hitems =>
    rw [resolveTuple]
    refine .congr (attempt_resolveElements hwf fun e he t' _ hwf' =>
      attempt_resolve hwf' hspeaks (hitems e he)) ?_
    constructor
    · exact fun h => .tuple h
    · rintro ⟨h⟩
      exact h
  | union => exact .throw hwf fun h => by cases h

/-- Reading a text first. -/
theorem attempt_resolving {α : Type} (hwf : t.WellFormed) {meaning : TypeExpr → Resolving α}
    {means : TypeExpr → Prop} {post : α → Interner → Prop} (source : String)
    (h : ∀ e, TypeExpr.parse source = .ok e → e.Spelled → Attempt t (meaning e) (means e) post) :
    Attempt t (resolving meaning source) (Parses source means) post := by
  unfold resolving
  cases hparse : TypeExpr.parse source with
  | ok e =>
    refine (h e hparse (spelled_of_parse hparse)).congr ⟨fun he => ⟨e, hparse, he⟩, ?_⟩
    rintro ⟨e', heq, he'⟩
    rw [hparse] at heq
    exact Except.ok.inj heq ▸ he'
  | error cause =>
    refine .throw hwf ?_
    rintro ⟨e, heq, -⟩
    rw [hparse] at heq
    cases heq

/-- What reading a base comes to: an instance of the class whose name comes first in the text. -/
theorem attempt_base (hwf : t.WellFormed) (hspeaks : r.Speaks scope V) (source : String) :
    Attempt t (resolving (r.resolveInstance scope) source)
      (Parses source (MeansInstance r.arity (scope.map Param.name))) fun i t' =>
        (∃ name args, TypeExpr.parse source = .ok (.name name args) ∧
          r.lookup name = some i.head) ∧ ConformsInstance V i t' := by
  refine attempt_resolving hwf source fun e hparse he => ?_
  refine (attempt_resolveInstance hwf hspeaks he).mono ?_
  rintro i t' _ _ ⟨⟨name, args, rfl, hlookup⟩, hi⟩
  exact ⟨⟨name, args, hparse, hlookup⟩, hi⟩

/-! ## What a registry is asked for -/

omit [Digest TypeData] in
theorem mapM_congr {α β : Type} {m : Type → Type} [Monad m] [LawfulMonad m] {f g : α → m β}
    {xs : List α} (h : ∀ x ∈ xs, f x = g x) : xs.mapM f = xs.mapM g := by
  induction xs with
  | nil => rfl
  | cons x xs ih =>
    rw [List.mapM_cons, List.mapM_cons, h x List.mem_cons_self,
      ih fun y hy => h y (List.mem_cons_of_mem _ hy)]

omit [Digest TypeData] in
theorem resolveApplied_congr (hnames : ∀ name, r'.lookup name = r.lookup name)
    (hparams : ∀ c, r'.params c = r.params c) (scope : Scope) (name : String) (count : Nat)
    (args : Resolving (List TypeId)) :
    r'.resolveApplied scope name count args = r.resolveApplied scope name count args := by
  unfold resolveApplied named
  simp only [hnames, hparams]

/-- Registries with the same names and parameters give expressions the same meaning. -/
theorem resolve_congr (hnames : ∀ name, r'.lookup name = r.lookup name)
    (hparams : ∀ c, r'.params c = r.params c) (scope : Scope) (e : TypeExpr) :
    r'.resolve scope e = r.resolve scope e := by
  induction e using TypeExpr.induct with
  | name head args ih =>
    have hargs : r'.resolveList scope args = r.resolveList scope args := by
      rw [resolveList_eq, resolveList_eq]
      exact mapM_congr ih
    rw [resolve, resolve, hargs]
    simp only [resolveApplied_congr hnames hparams]
  | tuple elements ih =>
    have hitems : r'.resolveElements scope elements = r.resolveElements scope elements := by
      rw [resolveElements_eq, resolveElements_eq]
      exact mapM_congr fun e he => by rw [ih e he]
    rw [resolve, resolve, hitems]
  | union members ih =>
    have hmembers : r'.resolveList scope members = r.resolveList scope members := by
      rw [resolveList_eq, resolveList_eq]
      exact mapM_congr ih
    rw [resolve, resolve, hmembers]

theorem resolveInstance_congr (hnames : ∀ name, r'.lookup name = r.lookup name)
    (hparams : ∀ c, r'.params c = r.params c) (scope : Scope) :
    r'.resolveInstance scope = r.resolveInstance scope := by
  funext e
  cases e with
  | name head args =>
    have hargs : r'.resolveList scope args = r.resolveList scope args := by
      rw [resolveList_eq, resolveList_eq]
      exact mapM_congr fun a _ => resolve_congr hnames hparams scope a
    rw [resolveInstance, resolveInstance, hargs, resolveApplied_congr hnames hparams]
  | tuple elements => rfl
  | union members => rfl

theorem resolveTuple_congr (hnames : ∀ name, r'.lookup name = r.lookup name)
    (hparams : ∀ c, r'.params c = r.params c) (scope : Scope) :
    r'.resolveTuple scope = r.resolveTuple scope := by
  funext e
  cases e with
  | name head args => rfl
  | tuple elements =>
    rw [resolveTuple, resolveTuple, resolveElements_eq, resolveElements_eq]
    exact mapM_congr fun e _ => by rw [resolve_congr hnames hparams scope e.item]
  | union members => rfl

end Registry

end Supertypes
