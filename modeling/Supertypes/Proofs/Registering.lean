import Supertypes.Fixture.Build
import Supertypes.Proofs.Meaning
import Supertypes.Proofs.Reachable

/-!
# Registering declared classes

- `WellDeclared`: what a list of declarations has to satisfy to make a hierarchy.
- `Hierarchy.Checked cond h x post`: a step of the construction that succeeds with `post`, or
  fails because `cond` is false. `Hierarchy.Checked.bind`, `Hierarchy.Checked.mapM` and
  `Hierarchy.Checked.forM` put steps together.
- `Registry.Declares`: the classes of a registry are the declared ones, by name and parameters.
- `Registry.Registered`: nothing else has been done. `Hierarchy.checked_register` says that the
  first round of the construction leads there.
-/

namespace Supertypes

open Relation

/-! ## Declarations that make a hierarchy -/

/-- The numbers of parameters of the built-in classes and of the declared ones. -/
def declaredArity (decls : List ClassDecl) (name : String) : Option Nat :=
  if name = "object" then some 0
  else if name = "tuple" then some 1
  else (decls.find? (·.name = name)).map fun decl => decl.params.length

/-- The class called `name` has a declared base that is an instance of the class called
`base`. -/
def DeclaredBase (decls : List ClassDecl) (name base : String) : Prop :=
  ∃ decl ∈ decls, decl.name = name ∧
    ∃ text ∈ decl.bases, ∃ args, TypeExpr.parse text = .ok (.name base args)

/-- The declarations make a hierarchy. -/
structure WellDeclared (decls : List ClassDecl) : Prop where
  names_nodup : (decls.map ClassDecl.name).Nodup
  not_builtin : ∀ decl ∈ decls, decl.name ≠ "object" ∧ decl.name ≠ "tuple"
  params_nodup : ∀ decl ∈ decls, decl.params.Nodup
  /-- Bases denote instances, by the parameters of their class and all declared classes. -/
  bases_mean : ∀ decl ∈ decls, ∀ text ∈ decl.bases,
    TypeExpr.Parses text (TypeExpr.MeansInstance (declaredArity decls) decl.params)
  /-- No class has itself among the bases of its bases. -/
  acyclic : ∀ name, ¬ TransGen (DeclaredBase decls) name name
  /-- Tuple shapes denote tuples. -/
  shapes_mean : ∀ decl ∈ decls, ∀ text ∈ decl.tuple,
    TypeExpr.Parses text (TypeExpr.MeansTuple (declaredArity decls) decl.params)

namespace Hierarchy

variable {α β : Type} {cond : Prop} {h : Hierarchy}

/-! ## Steps of the construction -/

/-- The step succeeds with `post`, or it fails because `cond` is false. -/
def Checked (cond : Prop) (h : Hierarchy) (x : Building α) (post : α → Hierarchy → Prop) : Prop :=
  match x.run.run h with
  | (.ok a, h') => post a h'
  | (.error _, _) => ¬ cond

namespace Checked

variable {x : Building α} {P Q : α → Hierarchy → Prop}

/-- A step is checked if it succeeds in the first place. -/
theorem of_ok {a : α} {h' : Hierarchy} (hrun : x.run.run h = (.ok a, h')) (hpost : P a h') :
    Checked cond h x P := by
  unfold Checked
  rw [hrun]
  exact hpost

theorem pure {a : α} (ha : P a h) : Checked cond h (Pure.pure a : Building α) P :=
  ha

/-- A step that fails is checked if the condition is false. -/
theorem throw {e : FixtureError} (hcond : ¬ cond) : Checked cond h (throw e : Building α) P :=
  hcond

/-- The outcome may be weakened. -/
theorem mono (hx : Checked cond h x P) (hpost : ∀ a h', P a h' → Q a h') :
    Checked cond h x Q := by
  unfold Checked at hx ⊢
  split at hx
  · exact hpost _ _ hx
  · exact hx

/-- Two steps under one condition, of which the second may rely on what the first has done. -/
theorem bind {f : α → Building β} {R : β → Hierarchy → Prop} (hx : Checked cond h x P)
    (hf : ∀ a h', P a h' → Checked cond h' (f a) R) : Checked cond h (x >>= f) R := by
  unfold Checked at hx ⊢
  rw [ExceptT.run_bind, StateT.run_bind]
  rcases hrun : x.run.run h with ⟨result, h'⟩
  rw [hrun] at hx
  cases result with
  | ok a => exact hf a h' hx
  | error e => exact hx

/-- Reading the hierarchy. -/
theorem get {k : Hierarchy → Building α} (hk : Checked cond h (k h) P) :
    Checked cond h (MonadState.get >>= k) P :=
  hk

/-- Running a step for each entry of a list. The invariant speaks of the entries done so far and
their results. -/
theorem mapM {f : α → Building β} (I : List α → List β → Hierarchy → Prop) {xs : List α}
    (hstart : I [] [] h)
    (hstep : ∀ done a rest ys h', xs = done ++ a :: rest → I done ys h' →
      Checked cond h' (f a) fun b h'' => I (done ++ [a]) (ys ++ [b]) h'') :
    Checked cond h (xs.mapM f) (I xs) := by
  suffices hgen : ∀ rest done ys h', xs = done ++ rest → I done ys h' →
      Checked cond h' (rest.mapM f) fun zs h'' => I xs (ys ++ zs) h'' from
    hgen xs [] [] h rfl hstart
  intro rest
  induction rest with
  | nil =>
    intro done ys h' heq hI
    rw [List.append_nil] at heq
    subst heq
    rw [List.mapM_nil]
    refine .pure ?_
    rwa [List.append_nil]
  | cons a rest ih =>
    intro done ys h' heq hI
    rw [List.mapM_cons]
    refine (hstep done a rest ys h' heq hI).bind fun b h₁ hI₁ => ?_
    have heq' : xs = (done ++ [a]) ++ rest := by rw [heq, List.append_assoc]; rfl
    refine (ih (done ++ [a]) (ys ++ [b]) h₁ heq' hI₁).bind fun zs h₂ hI₂ => ?_
    refine .pure ?_
    rwa [List.append_assoc] at hI₂

/-- Running a step for each entry of a list, for its effects only. -/
theorem forM {f : α → Building Unit} (I : List α → Hierarchy → Prop) {xs : List α}
    (hstart : I [] h)
    (hstep : ∀ done a rest h', xs = done ++ a :: rest → I done h' →
      Checked cond h' (f a) fun _ h'' => I (done ++ [a]) h'') :
    Checked cond h (xs.forM f) fun _ => I xs := by
  suffices hgen : ∀ rest done h', xs = done ++ rest → I done h' →
      Checked cond h' (rest.forM f) fun _ h'' => I xs h'' from
    hgen xs [] h rfl hstart
  intro rest
  induction rest with
  | nil =>
    intro done h' heq hI
    rw [List.append_nil] at heq
    subst heq
    exact .pure hI
  | cons a rest ih =>
    intro done h' heq hI
    show Checked cond h' (f a >>= fun _ => rest.forM f) _
    refine (hstep done a rest h' heq hI).bind fun _ h₁ hI₁ => ?_
    have heq' : xs = (done ++ [a]) ++ rest := by rw [heq, List.append_assoc]; rfl
    exact ih (done ++ [a]) h₁ heq' hI₁

/-- An edit as a step. -/
theorem editing {context : HierarchyError → FixtureError} {action : Edit α}
    (hok : ∀ a h', action.run.run h = (.ok a, h') → P a h')
    (herror : ∀ e h', action.run.run h = (.error e, h') → ¬ cond) :
    Checked cond h (Hierarchy.editing context action) P := by
  have hrun : (Hierarchy.editing context action).run.run h =
      ((action.run.run h).1.mapError context, (action.run.run h).2) := rfl
  unfold Checked
  rw [hrun]
  rcases haction : action.run.run h with ⟨result, h'⟩
  cases result with
  | ok a => exact hok a h' haction
  | error e => exact herror e h' haction

/-- Resolving an expression as a step, which must succeed if `cond` holds. -/
theorem resolving [Digest TypeData] {context : ResolveError → FixtureError} {action : Resolving α}
    {means : Prop} {post : α → Interner → Prop}
    (haction : Interner.Attempt h.types action means post)
    (hmeans : cond → means)
    (hpost : ∀ a types, h.types ≤ types → types.WellFormed →
      Interner.Settled types action.run (.ok a) → means → post a types → P a { h with types }) :
    Checked cond h (Hierarchy.resolving context action) P := by
  have hrun : (Hierarchy.resolving context action).run.run h =
      ((action.run.run h.types).1.mapError context,
        { h with types := (action.run.run h.types).2 }) := rfl
  have hsettled := haction.settled
  have houtcome := haction.post
  unfold Checked
  rw [hrun]
  cases hresult : (action.run.run h.types).1 with
  | ok a =>
    rw [hresult] at hsettled houtcome
    exact hpost a _ haction.le haction.wellFormed hsettled houtcome.1 houtcome.2
  | error e =>
    rw [hresult] at houtcome
    exact fun hcond => houtcome (hmeans hcond)

end Checked

end Hierarchy

/-! ## The first round -/

/-- Type parameters of new identities. -/
def freshScope : Nat → List String → Scope
  | _, [] => []
  | next, name :: rest => ⟨⟨next⟩, name⟩ :: freshScope (next + 1) rest

/-- New parameters have the names that are asked for. -/
theorem map_name_freshScope (next : Nat) (names : List String) :
    (freshScope next names).map Param.name = names := by
  induction names generalizing next with
  | nil => rfl
  | cons name rest ih => simp [freshScope, ih]

/-- The identities of new parameters are the next ones. -/
theorem number_of_mem_freshScope {next : Nat} {names : List String} {p : Param}
    (h : p ∈ freshScope next names) :
    next ≤ p.id.number ∧ p.id.number < next + names.length := by
  induction names generalizing next with
  | nil => exact absurd h List.not_mem_nil
  | cons name rest ih =>
    rcases List.mem_cons.mp h with rfl | h
    · simp
    · have := ih h
      simp only [List.length_cons]
      omega

/-- Equal identities stand for equal parameters. -/
theorem eq_of_mem_freshScope {next : Nat} {names : List String} {p p' : Param}
    (h : p ∈ freshScope next names) (h' : p' ∈ freshScope next names) (hid : p.id = p'.id) :
    p = p' := by
  induction names generalizing next with
  | nil => exact absurd h List.not_mem_nil
  | cons name rest ih =>
    rcases List.mem_cons.mp h with rfl | h
    · rcases List.mem_cons.mp h' with rfl | h'
      · rfl
      · have := (number_of_mem_freshScope h').1
        rw [← hid] at this
        dsimp only at this
        omega
    · rcases List.mem_cons.mp h' with rfl | h'
      · have := (number_of_mem_freshScope h).1
        rw [hid] at this
        dsimp only at this
        omega
      · exact ih h h'

namespace Registry

/-- The name and the type parameters of a class. -/
def header? (r : Registry) (c : ClassId) : Option (String × List Param) :=
  (r.get? c).map fun info => (info.name, info.params)

theorem params_eq_header? (r : Registry) (c : ClassId) :
    r.params c = ((r.header? c).map Prod.snd).getD [] := by
  unfold params header?
  cases r.get? c with
  | none => rfl
  | some info => rfl

theorem contains_eq_header? (r : Registry) (c : ClassId) :
    r.contains c = (r.header? c).isSome :=
  Option.isSome_map.symm

theorem params_of_header? {r : Registry} {c : ClassId} {name : String} {params : List Param}
    (h : r.header? c = some (name, params)) : r.params c = params := by
  rw [params_eq_header?, h]
  rfl

theorem contains_of_header? {r : Registry} {c : ClassId} {header : String × List Param}
    (h : r.header? c = some header) : r.contains c = true := by
  rw [contains_eq_header?, h]
  rfl

/-- An update that keeps name and parameters keeps the headers. -/
theorem header?_update (r : Registry) (c : ClassId) {f : ClassInfo → ClassInfo}
    (hf : ∀ info, (f info).name = info.name ∧ (f info).params = info.params) (d : ClassId) :
    (r.update c f).header? d = r.header? d := by
  unfold header?
  rw [get?_update, Option.map_map]
  refine Option.map_congr fun info _ => ?_
  dsimp only [Function.comp_apply]
  split
  · rw [(hf info).1, (hf info).2]
  · rfl

/-- Marks are no part of the headers. -/
theorem header?_markRecursion [Digest TypeData] (r : Registry) (types : Interner) (d : ClassId) :
    (r.markRecursion types).header? d = r.header? d := by
  unfold header?
  rw [get?_markRecursion, Option.map_map]
  refine Option.map_congr fun info _ => ?_
  dsimp only [Function.comp_apply]
  rcases markClass_cases r types d info with ⟨-, heq⟩ | ⟨shape, recursive, -, heq⟩
  · rw [heq]
  · rw [heq]

/-- A class with parameters is registered. -/
theorem header?_of_mem_params {r : Registry} {c : ClassId} {p : Param} (h : p ∈ r.params c) :
    ∃ name, r.header? c = some (name, r.params c) := by
  unfold params at h
  cases hinfo : r.get? c with
  | none =>
    rw [hinfo] at h
    exact absurd h List.not_mem_nil
  | some info => exact ⟨info.name, by rw [header?, params, hinfo]; rfl⟩

/-- Registered classes are numbered from 1 to the size of the registry. -/
theorem number_of_header? {r : Registry} {c : ClassId} {header : String × List Param}
    (h : r.header? c = some header) : 1 ≤ c.number ∧ c.number ≤ r.size := by
  obtain ⟨info, hinfo, -⟩ := Option.map_eq_some_iff.mp h
  obtain ⟨n⟩ := c
  cases n with
  | zero => cases hinfo
  | succ n =>
    obtain ⟨hlt, -⟩ := List.getElem?_eq_some_iff.mp hinfo
    exact ⟨Nat.le_add_left 1 n, hlt⟩

/-- The classes are the built-in ones and the declared ones, by name and parameters. -/
structure Declares (decls : List ClassDecl) (r : Registry) : Prop where
  size : r.size = decls.length + 2
  object : r.header? .object = some ("object", [])
  tuple : r.header? .tuple = some ("tuple", [⟨⟨1⟩, "T_co"⟩])
  declared : ∀ n decl, decls[n]? = some decl →
    ∃ scope, r.header? ⟨n + 3⟩ = some (decl.name, scope) ∧ scope.map Param.name = decl.params ∧
      decl.params.Nodup
  names_iff : ∀ name c, r.lookup name = some c ↔ ∃ params, r.header? c = some (name, params)
  /-- No two classes share a parameter. -/
  params_apart : ∀ c c' p p', p ∈ r.params c → p' ∈ r.params c' → p.id = p'.id → c = c' ∧ p = p'

namespace Declares

variable {decls : List ClassDecl} {r : Registry}

/-- The classes of a registry. -/
theorem header?_cases (hr : Declares decls r) {c : ClassId} {header : String × List Param}
    (h : r.header? c = some header) :
    c = .object ∨ c = .tuple ∨ ∃ n decl, decls[n]? = some decl ∧ c = ⟨n + 3⟩ := by
  have hnumber := number_of_header? h
  rw [hr.size] at hnumber
  obtain ⟨n⟩ := c
  dsimp only at hnumber
  match n, hnumber with
  | 1, _ => exact .inl rfl
  | 2, _ => exact .inr (.inl rfl)
  | n + 3, hnumber =>
    exact .inr (.inr ⟨n, decls[n], List.getElem?_eq_getElem (by omega), rfl⟩)

/-- The name of a declared class. -/
theorem lookup_declared (hr : Declares decls r) {n : Nat} {decl : ClassDecl}
    (hdecl : decls[n]? = some decl) : r.lookup decl.name = some ⟨n + 3⟩ := by
  obtain ⟨scope, hheader, -⟩ := hr.declared n decl hdecl
  exact (hr.names_iff decl.name ⟨n + 3⟩).mpr ⟨scope, hheader⟩

theorem lookup_object (hr : Declares decls r) : r.lookup "object" = some .object :=
  (hr.names_iff _ _).mpr ⟨_, hr.object⟩

theorem lookup_tuple (hr : Declares decls r) : r.lookup "tuple" = some .tuple :=
  (hr.names_iff _ _).mpr ⟨_, hr.tuple⟩

/-- A class that is found by a name is registered. -/
theorem contains_of_lookup (hr : Declares decls r) {name : String} {c : ClassId}
    (h : r.lookup name = some c) : r.contains c = true := by
  obtain ⟨params, hheader⟩ := (hr.names_iff name c).mp h
  exact contains_of_header? hheader

/-- A class has one name. -/
theorem name_unique (hr : Declares decls r) {name name' : String} {c : ClassId}
    (h : r.lookup name = some c) (h' : r.lookup name' = some c) : name = name' := by
  obtain ⟨params, hheader⟩ := (hr.names_iff name c).mp h
  obtain ⟨params', hheader'⟩ := (hr.names_iff name' c).mp h'
  exact congrArg Prod.fst (Option.some.inj (hheader.symm.trans hheader'))

/-- No declared class is called like a built-in one. -/
theorem not_builtin (hr : Declares decls r) {decl : ClassDecl} (hdecl : decl ∈ decls) :
    decl.name ≠ "object" ∧ decl.name ≠ "tuple" := by
  obtain ⟨n, hn⟩ := List.mem_iff_getElem?.mp hdecl
  have hlookup := hr.lookup_declared hn
  constructor
  · intro heq
    rw [heq, hr.lookup_object] at hlookup
    cases hlookup
  · intro heq
    rw [heq, hr.lookup_tuple] at hlookup
    cases hlookup

/-- No two declared classes have one name. -/
theorem names_nodup (hr : Declares decls r) : (decls.map ClassDecl.name).Nodup := by
  rw [List.nodup_iff_getElem?_ne_getElem?]
  intro i j hij hj heq
  rw [List.length_map] at hj
  rw [List.getElem?_map, List.getElem?_map, List.getElem?_eq_getElem (hij.trans hj),
    List.getElem?_eq_getElem hj] at heq
  have hname : decls[i].name = decls[j].name := Option.some.inj heq
  have hi := hr.lookup_declared (List.getElem?_eq_getElem (hij.trans hj))
  rw [hname, hr.lookup_declared (List.getElem?_eq_getElem hj)] at hi
  have := congrArg ClassId.number (Option.some.inj hi)
  dsimp only at this
  omega

/-- A name that is taken is a built-in one or one that has been declared. -/
theorem lookup_eq_none (hr : Declares decls r) {name : String} (hobject : name ≠ "object")
    (htuple : name ≠ "tuple") (hnew : name ∉ decls.map ClassDecl.name) : r.lookup name = none := by
  cases hlookup : r.lookup name with
  | none => rfl
  | some c =>
    obtain ⟨params, hheader⟩ := (hr.names_iff name c).mp hlookup
    rcases hr.header?_cases hheader with rfl | rfl | ⟨n, decl, hdecl, rfl⟩
    · exact absurd (hr.name_unique hlookup hr.lookup_object) hobject
    · exact absurd (hr.name_unique hlookup hr.lookup_tuple) htuple
    · rw [hr.name_unique hlookup (hr.lookup_declared hdecl)] at hnew
      exact absurd (List.mem_map_of_mem (List.mem_of_getElem? hdecl)) hnew

/-- The numbers of parameters are those that are declared. -/
theorem arity_eq (hr : Declares decls r) : r.arity = declaredArity decls := by
  funext name
  unfold arity declaredArity
  by_cases hobject : name = "object"
  · rw [if_pos hobject, hobject, hr.lookup_object, Option.map_some, params_of_header? hr.object]
    rfl
  by_cases htuple : name = "tuple"
  · rw [if_neg hobject, if_pos htuple, htuple, hr.lookup_tuple, Option.map_some,
      params_of_header? hr.tuple]
    rfl
  rw [if_neg hobject, if_neg htuple]
  cases hfind : decls.find? (·.name = name) with
  | none =>
    have hnew : name ∉ decls.map ClassDecl.name := by
      intro hmem
      obtain ⟨decl, hdecl, heq⟩ := List.mem_map.mp hmem
      simpa [heq] using List.find?_eq_none.mp hfind decl hdecl
    rw [hr.lookup_eq_none hobject htuple hnew]
    rfl
  | some decl =>
    have hname : decl.name = name := by simpa using List.find?_some hfind
    obtain ⟨n, hn⟩ := List.mem_iff_getElem?.mp (List.mem_of_find?_eq_some hfind)
    obtain ⟨scope, hheader, hscope, -⟩ := hr.declared n decl hn
    rw [← hname, hr.lookup_declared hn, Option.map_some, params_of_header? hheader,
      Option.map_some, ← hscope, List.length_map]

end Declares

/-- The declared classes have been registered, with parameters of their own, and nothing else has
been done. -/
structure Registered (decls : List ClassDecl) (r : Registry) : Prop extends Declares decls r where
  params_fresh : ∀ c, ∀ p ∈ r.params c, p.id.number < r.nextParam
  owners_fresh : ∀ entry ∈ r.owners, entry.1.number < r.nextParam
  bases_eq : ∀ c, r.bases c = builtin.bases c
  shape?_eq : ∀ c, r.shape? c = none

/-- A new name is found from then on, and the others as before. -/
theorem lookup_add {r : Registry} {info : ClassInfo} (hname : r.lookup info.name = none)
    (name : String) :
    (r.add info).2.lookup name = if info.name = name then some ⟨r.size + 1⟩ else r.lookup name := by
  have hnames : (r.add info).2.names = r.names ++ [(info.name, ⟨r.size + 1⟩)] := by
    unfold add
    simp [hname]
  unfold lookup at hname ⊢
  rw [hnames, List.find?_append]
  by_cases heq : info.name = name
  · rw [heq, Option.map_eq_none_iff] at hname
    simp [hname, heq]
  · simp [heq]

/-- The two classes that are there at the start. -/
theorem header?_builtin {c : ClassId} {header : String × List Param}
    (h : builtin.header? c = some header) :
    c = .object ∧ header = ("object", []) ∨ c = .tuple ∧ header = ("tuple", [⟨⟨1⟩, "T_co"⟩]) := by
  have hnumber : 1 ≤ c.number ∧ c.number ≤ 2 := number_of_header? h
  obtain ⟨n⟩ := c
  match n, hnumber with
  | 1, _ => exact .inl ⟨rfl, (Option.some.inj h).symm⟩
  | 2, _ => exact .inr ⟨rfl, (Option.some.inj h).symm⟩

/-- The names of the built-in classes. -/
theorem lookup_builtin_iff (name : String) (c : ClassId) :
    builtin.lookup name = some c ↔ ∃ params, builtin.header? c = some (name, params) := by
  have hlookup : builtin.lookup name =
      if "object" = name then some .object else if "tuple" = name then some .tuple else none := by
    show ([("object", ClassId.object), ("tuple", ClassId.tuple)].find? _).map Prod.snd = _
    by_cases hobject : "object" = name
    · simp [hobject]
    · by_cases htuple : "tuple" = name <;> simp [hobject, htuple]
  rw [hlookup]
  constructor
  · intro h
    split at h
    · rename_i hname
      obtain rfl := Option.some.inj h
      exact ⟨[], by rw [← hname]; rfl⟩
    · split at h
      · rename_i hname
        obtain rfl := Option.some.inj h
        exact ⟨[⟨⟨1⟩, "T_co"⟩], by rw [← hname]; rfl⟩
      · cases h
  · rintro ⟨params, hheader⟩
    rcases header?_builtin hheader with ⟨rfl, heq⟩ | ⟨rfl, heq⟩
    · rw [(Prod.mk.inj heq).1]
      rfl
    · rw [(Prod.mk.inj heq).1]
      rfl

theorem mem_params_builtin {c : ClassId} {p : Param} (h : p ∈ builtin.params c) :
    c = .tuple ∧ p = ⟨⟨1⟩, "T_co"⟩ := by
  obtain ⟨name, hheader⟩ := header?_of_mem_params h
  rcases header?_builtin hheader with ⟨-, heq⟩ | ⟨rfl, heq⟩
  · rw [(Prod.mk.inj heq).2] at h
    exact absurd h List.not_mem_nil
  · rw [(Prod.mk.inj heq).2] at h
    exact ⟨rfl, List.mem_singleton.mp h⟩

/-- The registry with one more class, which brings new parameters. -/
def withDeclared (r : Registry) (decl : ClassDecl) : Registry :=
  (({ r with nextParam := r.nextParam + decl.params.length } : Registry).add
    { name := decl.name, params := freshScope r.nextParam decl.params }).2

/-- Declaring a class adds one, and the classes before it keep their names and parameters. -/
theorem header?_withDeclared (r : Registry) (decl : ClassDecl) (c : ClassId) :
    (r.withDeclared decl).header? c =
      if c = ⟨r.size + 1⟩ then some (decl.name, freshScope r.nextParam decl.params)
      else r.header? c := by
  have hget : (r.withDeclared decl).get? c = if c = ⟨r.size + 1⟩ then
      some { name := decl.name, params := freshScope r.nextParam decl.params } else r.get? c :=
    get?_add _ _ c
  unfold header?
  rw [hget]
  split <;> rfl

/-- So the new class has its own parameters, and the others have theirs. -/
theorem params_withDeclared (r : Registry) (decl : ClassDecl) (c : ClassId) :
    (r.withDeclared decl).params c =
      if c = ⟨r.size + 1⟩ then freshScope r.nextParam decl.params else r.params c := by
  rw [params_eq_header?, params_eq_header?, header?_withDeclared]
  split <;> rfl

/-- The number after the last class has no header. -/
theorem header?_size_succ (r : Registry) : r.header? ⟨r.size + 1⟩ = none := by
  unfold header?
  rw [get?_size_succ]
  rfl

namespace Registered

variable {decls : List ClassDecl} {r : Registry}

/-- The registry at the start has the built-in classes and nothing else. -/
theorem initial : Registered [] builtin where
  size := rfl
  object := rfl
  tuple := rfl
  declared := by simp
  names_iff := lookup_builtin_iff
  params_fresh := by
    intro c p hp
    obtain ⟨-, rfl⟩ := mem_params_builtin hp
    decide
  owners_fresh := by decide
  params_apart := by
    intro c c' p p' hp hp' _
    obtain ⟨rfl, rfl⟩ := mem_params_builtin hp
    obtain ⟨rfl, rfl⟩ := mem_params_builtin hp'
    exact ⟨rfl, rfl⟩
  bases_eq _ := rfl
  shape?_eq := shape?_builtin

/-- The new class has its name, and the others keep theirs. -/
theorem lookup_withDeclared_iff (hr : Registered decls r) {decl : ClassDecl}
    (hname : r.lookup decl.name = none) (name : String) (c : ClassId) :
    (r.withDeclared decl).lookup name = some c ↔
      ∃ params, (r.withDeclared decl).header? c = some (name, params) := by
  have hlookup : (r.withDeclared decl).lookup name =
      if decl.name = name then some ⟨r.size + 1⟩ else r.lookup name := lookup_add hname name
  rw [hlookup, header?_withDeclared]
  constructor
  -- the new class, or one that had the name before
  · intro h
    split at h
    · rename_i heq
      obtain rfl := Option.some.inj h
      exact ⟨_, by rw [if_pos rfl, heq]⟩
    · obtain ⟨params, hheader⟩ := (hr.names_iff name c).mp h
      refine ⟨params, ?_⟩
      rw [if_neg, hheader]
      rintro rfl
      rw [header?_size_succ] at hheader
      cases hheader
  -- the other way round, the number tells which of them it is
  · rintro ⟨params, hheader⟩
    split at hheader
    · rename_i hc
      obtain ⟨rfl, -⟩ := Prod.mk.inj (Option.some.inj hheader)
      rw [if_pos rfl, hc]
    · have hfound := (hr.names_iff name c).mpr ⟨params, hheader⟩
      rw [if_neg, hfound]
      rintro rfl
      rw [hname] at hfound
      cases hfound

/-- Old parameters have lower numbers than new ones. -/
theorem params_apart_withDeclared (hr : Registered decls r) (decl : ClassDecl) (c c' : ClassId)
    (p p' : Param) (hp : p ∈ (r.withDeclared decl).params c)
    (hp' : p' ∈ (r.withDeclared decl).params c') (hid : p.id = p'.id) : c = c' ∧ p = p' := by
  rw [params_withDeclared] at hp hp'
  split at hp
  · split at hp'
    · rename_i hc hc'
      exact ⟨hc.trans hc'.symm, eq_of_mem_freshScope hp hp' hid⟩
    · have := (number_of_mem_freshScope hp).1
      have := hr.params_fresh c' p' hp'
      rw [hid] at *
      omega
  · split at hp'
    · have := (number_of_mem_freshScope hp').1
      have := hr.params_fresh c p hp
      rw [hid] at *
      omega
    · exact hr.params_apart c c' p p' hp hp' hid

/-- One more class is declared, whose name is free and whose parameters are distinct. -/
theorem declare (hr : Registered decls r) {decl : ClassDecl} (hname : r.lookup decl.name = none)
    (hparams : decl.params.Nodup) : Registered (decls ++ [decl]) (r.withDeclared decl) := by
  have hsize := hr.size
  -- the number of the new class is not that of an old one
  have hold : ∀ c : ClassId, c.number ≤ decls.length + 2 →
      (r.withDeclared decl).header? c = r.header? c := by
    intro c hc
    rw [header?_withDeclared, if_neg]
    rintro rfl
    dsimp only at hc
    omega
  have hnew : (r.withDeclared decl).header? ⟨decls.length + 3⟩ =
      some (decl.name, freshScope r.nextParam decl.params) := by
    rw [header?_withDeclared, if_pos (by rw [hsize])]
  refine {
    size := ?_, object := ?_, tuple := ?_, declared := ?_, names_iff := ?_, params_apart := ?_,
    params_fresh := ?_, owners_fresh := ?_,
    bases_eq := fun c => (bases_add rfl c).trans (hr.bases_eq c),
    shape?_eq := fun c => (shape?_add rfl c).trans (hr.shape?_eq c) }
  · show (r.classes ++ [_]).length = _
    rw [List.length_append, List.length_append]
    show r.size + 1 = _
    rw [hsize]
    rfl
  · rw [hold .object (show 1 ≤ decls.length + 2 by omega), hr.object]
  · rw [hold .tuple (show 2 ≤ decls.length + 2 by omega), hr.tuple]
  · intro n d hd
    rcases Nat.lt_trichotomy n decls.length with hn | rfl | hn
    · rw [List.getElem?_append_left hn] at hd
      rw [hold ⟨n + 3⟩ (show n + 3 ≤ decls.length + 2 by omega)]
      exact hr.declared n d hd
    · rw [List.getElem?_concat_length] at hd
      obtain rfl := Option.some.inj hd
      exact ⟨_, hnew, map_name_freshScope _ _, hparams⟩
    · rw [List.getElem?_eq_none (by simp; omega)] at hd
      cases hd
  · exact hr.lookup_withDeclared_iff hname
  · exact hr.params_apart_withDeclared decl
  · intro c p hp
    show p.id.number < r.nextParam + decl.params.length
    rw [params_withDeclared] at hp
    split at hp
    · exact (number_of_mem_freshScope hp).2
    · have := hr.params_fresh c p hp
      omega
  · intro entry hentry
    show entry.1.number < r.nextParam + decl.params.length
    rcases List.mem_append.mp hentry with hentry | hentry
    · have := hr.owners_fresh entry hentry
      omega
    · obtain ⟨p, hp, rfl⟩ := List.mem_map.mp hentry
      exact (number_of_mem_freshScope hp).2

end Registered

end Registry

namespace Hierarchy

variable {cond : Prop} {h : Hierarchy}

/-- Parameters are declared if their names are distinct. -/
theorem checked_declareParams {name : String} {scope : Scope} {params : List String}
    (hcond : cond → (scope.map Param.name ++ params).Nodup)
    (hscope : (scope.map Param.name).Nodup) :
    Checked cond h (declareParams name scope params) fun scope' h' =>
      scope' = scope ++ freshScope h.classes.nextParam params ∧
        (scope.map Param.name ++ params).Nodup ∧
        h' = { h with classes :=
          { h.classes with nextParam := h.classes.nextParam + params.length } } := by
  induction params generalizing scope h with
  | nil => exact .pure ⟨by simp [freshScope], by simpa using hscope, rfl⟩
  | cons param rest ih =>
    rw [declareParams]
    split
    · -- the name is taken
      rename_i htaken
      refine .throw fun hc => ?_
      have hdisjoint := (List.nodup_append.mp (hcond hc)).2.2
      exact hdisjoint _ (Scope.find_isSome_iff.mp htaken) _ List.mem_cons_self rfl
    · rename_i hfree
      have hfree' : param ∉ scope.map Param.name :=
        fun hmem => hfree (Scope.find_isSome_iff.mpr hmem)
      let p : Param := ⟨⟨h.classes.nextParam⟩, param⟩
      let h₁ : Hierarchy :=
        { h with classes := { h.classes with nextParam := h.classes.nextParam + 1 } }
      -- the names seen so far and the rest are the same list, one name further on
      have hnames : (scope ++ [p]).map Param.name ++ rest =
          scope.map Param.name ++ param :: rest := by
        simp [p]
      have hscope' : ((scope ++ [p]).map Param.name).Nodup := by
        rw [List.map_append, List.nodup_append]
        refine ⟨hscope, List.nodup_singleton _, ?_⟩
        rintro x hx y hy rfl
        rw [List.mem_singleton.mp hy] at hx
        exact hfree' hx
      have hrun : (ExceptT.lift (freshParam param) : Building Param).run.run h = (.ok p, h₁) := rfl
      refine .bind (P := fun a h' => a = p ∧ h' = h₁) (.of_ok hrun ⟨rfl, rfl⟩) ?_
      rintro _ _ ⟨rfl, rfl⟩
      refine (ih (by rwa [hnames]) hscope').mono ?_
      rintro scope' h' ⟨rfl, hnodup, rfl⟩
      rw [hnames] at hnodup
      refine ⟨by simp [freshScope, h₁, p], hnodup, ?_⟩
      simp only [h₁, List.length_cons]
      congr 2
      omega

/-- Parameters of which the registry knows none are free. -/
theorem taken?_eq_none {r : Registry} {params : List Param}
    (h : ∀ entry ∈ r.owners, ∀ p ∈ params, entry.1 ≠ p.id) : r.taken? params = none := by
  unfold Registry.taken? Registry.owner?
  rw [List.findSome?_eq_none_iff]
  intro p hp
  rw [Option.map_eq_none_iff, Option.map_eq_none_iff, List.find?_eq_none]
  exact fun entry hentry heq => h entry hentry p hp (by simpa using heq)

/-- A class is registered if its name is new and its parameters have distinct names. -/
theorem checked_declareClass {decls : List ClassDecl} {decl : ClassDecl}
    (hr : Registry.Registered decls h.classes)
    (hname : cond → h.classes.lookup decl.name = none) (hparams : cond → decl.params.Nodup) :
    Checked cond h (declareClass decl) fun declared h' =>
      declared = (⟨decls.length + 3⟩, freshScope h.classes.nextParam decl.params) ∧
        h' = { h with classes := h.classes.withDeclared decl } ∧
        Registry.Registered (decls ++ [decl]) h'.classes := by
  unfold declareClass
  refine .get ?_
  split
  · rename_i htaken
    refine .throw fun hc => ?_
    rw [hname hc] at htaken
    cases htaken
  · rename_i hfree
    have hfree' : h.classes.lookup decl.name = none := by simpa using hfree
    have hparams' : cond → (([] : Scope).map Param.name ++ decl.params).Nodup := hparams
    refine .bind (checked_declareParams hparams' .nil) ?_
    rintro scope h₁ ⟨hscope, hnodup, hh₁⟩
    rw [List.nil_append] at hscope
    rw [List.map_nil, List.nil_append] at hnodup
    obtain rfl := hscope
    -- the identities are new, so that no class has them yet
    have htaken : h₁.classes.taken? (freshScope h.classes.nextParam decl.params) = none := by
      refine taken?_eq_none fun entry hentry p hp => ?_
      rw [hh₁] at hentry
      have hold := hr.owners_fresh entry hentry
      have hnew := (number_of_mem_freshScope hp).1
      rintro heq
      rw [heq] at hold
      omega
    have hrun : (register decl.name (freshScope h.classes.nextParam decl.params) {}).run.run h₁ =
        (.ok ⟨decls.length + 3⟩,
          { h with classes := h.classes.withDeclared decl }) := by
      rcases register_cases h₁ decl.name (freshScope h.classes.nextParam decl.params) {} with
        ⟨p, owner, hbad, -⟩ | ⟨-, hrun⟩
      · rw [htaken] at hbad
        cases hbad
      · rw [hrun, hh₁]
        have hsize : h.classes.size = decls.length + 2 := hr.size
        show (Except.ok (ClassId.mk (h.classes.size + 1)), _) = _
        rw [hsize]
        rfl
    refine .bind (P := fun c h' => c = ⟨decls.length + 3⟩ ∧
      h' = { h with classes := h.classes.withDeclared decl }) (.editing ?_ ?_) ?_
    · intro c h' hok
      rw [hrun] at hok
      obtain ⟨hc, rfl⟩ := Prod.mk.inj hok
      exact ⟨(Except.ok.inj hc).symm, rfl⟩
    · intro e h' herror
      rw [hrun] at herror
      cases herror
    · rintro c h' ⟨rfl, rfl⟩
      exact .pure ⟨rfl, rfl, hr.declare hfree' hnodup⟩

/-- The first round of the construction registers the declared classes. -/
theorem checked_register {decls : List ClassDecl} (hcond : cond → WellDeclared decls) :
    Checked cond {} (decls.mapM fun decl => return (decl, ← declareClass decl))
      fun declared h => h.types = {} ∧ Registry.Registered decls h.classes ∧
        declared = decls.mapIdx fun n decl => (decl, ⟨n + 3⟩, h.classes.params ⟨n + 3⟩) := by
  have hinitial : Registry.Registered [] ({} : Hierarchy).classes := .initial
  refine .mapM (fun done declared (h : Hierarchy) => h.types = {} ∧
    Registry.Registered done h.classes ∧
    declared = done.mapIdx fun n decl =>
      (decl, (⟨n + 3⟩ : ClassId), h.classes.params ⟨n + 3⟩)) ⟨rfl, hinitial, rfl⟩ ?_
  -- the invariant of the loop: what is registered is what has been declared so far
  rintro done decl rest declared h heq ⟨htypes, hr, hdeclared⟩
  refine .bind (checked_declareClass hr ?_ ?_) ?_
  · intro hc
    have hwell := hcond hc
    have hmem : decl ∈ decls := by simp [heq]
    obtain ⟨hobject, htuple⟩ := hwell.not_builtin decl hmem
    refine hr.lookup_eq_none hobject htuple ?_
    have hnodup := hwell.names_nodup
    rw [heq, List.map_append, List.map_cons, List.nodup_append] at hnodup
    exact fun hdone => hnodup.2.2 _ hdone _ List.mem_cons_self rfl
  · exact fun hc => (hcond hc).params_nodup decl (by simp [heq])
  · rintro _ h' ⟨rfl, rfl, hr'⟩
    refine .pure ⟨htypes, hr', ?_⟩
    rw [List.mapIdx_append, List.mapIdx_singleton, hdeclared]
    -- the new class has the parameters that it was given
    have hnew : (h.classes.withDeclared decl).params ⟨done.length + 3⟩ =
        freshScope h.classes.nextParam decl.params := by
      rw [Registry.params_withDeclared, if_pos (by rw [hr.size])]
    congr 1
    · -- the parameters of the classes before are as they were
      refine List.ext_getElem (by simp) fun n hn _ => ?_
      rw [List.length_mapIdx] at hn
      have hold : (h.classes.withDeclared decl).params ⟨n + 3⟩ =
          h.classes.params ⟨n + 3⟩ := by
        rw [Registry.params_withDeclared, if_neg]
        intro hc
        have := congrArg ClassId.number hc
        rw [hr.size] at this
        dsimp only at this
        omega
      simp [hold]
    · simp [hnew]

end Hierarchy

end Supertypes
