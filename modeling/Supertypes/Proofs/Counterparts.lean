import Supertypes.Proofs.AnswersInStep
import Supertypes.Proofs.ShapeCycles

/-!
# Declarations that say the same

Two hierarchies made of declarations that come in different orders, or have other names for type
parameters.

- `ClassDecl.Alike`: declarations of one class, whose texts say the same of the type parameters
  at the same places. `SameDeclarations`: each declaration has one like it in the other list.
- `Renaming.byPlace`: classes of one name are counterparts, and so are type parameters at the
  same places of such classes.
- `Registry.cycles_iff`: shapes that say the same lead back to their classes in both hierarchies
  or in neither.
- `Hierarchy.Built.corresponds`: counterparts have the same base edges and the same shapes, if
  the shape pass has added edges to the same classes.
-/

namespace Supertypes

open Interner Relation

/-! ## Declarations alike -/

/-- The words name the type parameters at the same place, or something else and then the same. -/
structure SameWord (params params' : List String) (w w' : String) : Prop where
  place : params.idxOf w = params'.idxOf w'
  others : w ∉ params → w' = w

theorem SameWord.mem_iff {params params' : List String} {w w' : String}
    (h : SameWord params params' w w') (hlength : params.length = params'.length) :
    w ∈ params ↔ w' ∈ params' := by
  rw [← List.idxOf_lt_length_iff, ← List.idxOf_lt_length_iff, h.place, hlength]

/-- What the first text spells, the second spells with words related by `S`. -/
def SameText (S : String → String → Prop) (text text' : String) : Prop :=
  ∀ e, TypeExpr.parse text = .ok e →
    ∃ e', TypeExpr.parse text' = .ok e' ∧ TypeExpr.Respelled S e e'

theorem SameText.refl {S : String → String → Prop} (hS : ∀ w, S w w) (text : String) :
    SameText S text text :=
  fun e he => ⟨e, he, .refl hS e⟩

namespace ClassDecl

/-- The declarations differ in the names of type parameters only. -/
structure Alike (decl decl' : ClassDecl) : Prop where
  name : decl'.name = decl.name
  length : decl'.params.length = decl.params.length
  bases : List.Forall₂ (SameText (SameWord decl.params decl'.params)) decl.bases decl'.bases
  tuple : Option.Rel (SameText (SameWord decl.params decl'.params)) decl.tuple decl'.tuple

theorem Alike.refl (decl : ClassDecl) : decl.Alike decl where
  name := rfl
  length := rfl
  bases := List.forall₂_same.mpr fun text _ => .refl (fun _ => ⟨rfl, fun _ => rfl⟩) text
  tuple := by
    cases decl.tuple with
    | none => exact .none
    | some text => exact .some (.refl (fun _ => ⟨rfl, fun _ => rfl⟩) text)

end ClassDecl

/-- Each declaration of either list has one like it in the other. -/
structure SameDeclarations (decls decls' : List ClassDecl) : Prop where
  left : ∀ decl ∈ decls, ∃ decl' ∈ decls', decl.Alike decl'
  right : ∀ decl' ∈ decls', ∃ decl ∈ decls, decl.Alike decl'
  length : decls.length = decls'.length

variable {decls decls' : List ClassDecl} {r r' : Registry} {c c' : ClassId} {name : String}

/-! ## Counterparts by name and place -/

/-- Classes of one name, and type parameters at the same places of such classes. -/
def Renaming.byPlace (r r' : Registry) : Renaming where
  cls c c' := ∃ name, r.lookup name = some c ∧ r'.lookup name = some c'
  param p p' := ∃ (name : String) (c c' : ClassId) (i : Nat), r.lookup name = some c ∧
    r'.lookup name = some c' ∧ (r.params c)[i]? = some p ∧ (r'.params c')[i]? = some p'

theorem Renaming.cls_byPlace_back (hc : (byPlace r r').cls c c') : (byPlace r' r).cls c' c := by
  obtain ⟨name, hc, hc'⟩ := hc
  exact ⟨name, hc', hc⟩

theorem Renaming.param_byPlace_back {p p' : Param} (hp : (byPlace r r').param p p') :
    (byPlace r' r).param p' p := by
  obtain ⟨name, c, c', i, hc, hc', hp, hp'⟩ := hp
  exact ⟨name, c', c, i, hc', hc, hp', hp⟩

/-- The type parameter of a name, by its place. -/
theorem Scope.find_eq_getElem? (scope : Scope) (w : String) :
    scope.find w = scope[(scope.map Param.name).idxOf w]? := by
  induction scope with
  | nil => rfl
  | cons p scope ih =>
    unfold Scope.find at ih ⊢
    rw [List.map_cons]
    by_cases hname : p.name = w
    · rw [List.find?_cons_of_pos (by simpa using hname), hname, List.idxOf_cons_self]
      rfl
    · rw [List.find?_cons_of_neg (by simpa using hname), ih, List.idxOf_cons_ne _ hname]
      rfl

theorem rel_getElem? {α β : Type} {R : α → β → Prop} {xs : List α} {ys : List β}
    (h : List.Forall₂ R xs ys) (n : Nat) : Option.Rel R xs[n]? ys[n]? := by
  induction h generalizing n with
  | nil => exact .none
  | cons hxy _ ih =>
    cases n with
    | zero => exact .some hxy
    | succ n => exact ih n

/-- Words at the same place are found together. -/
theorem Scope.Renamed.of_places {ρ : Renaming} {scope scope' : Scope} {params params' : List String}
    (hscope : List.Forall₂ ρ.param scope scope') (hnames : scope.map Param.name = params)
    (hnames' : scope'.map Param.name = params') :
    Scope.Renamed ρ (SameWord params params') scope scope' where
  find w w' hw := by
    rw [Scope.find_eq_getElem?, Scope.find_eq_getElem?, hnames, hnames', hw.place]
    exact rel_getElem? hscope _
  others w w' hw hfind := hw.others (hnames ▸ Scope.find_eq_none_iff.mp hfind)

namespace Registry.Declares

/-- The parameters of a class have different names. -/
theorem param_names_nodup (hr : Declares decls r) (c : ClassId) :
    ((r.params c).map Param.name).Nodup := by
  cases hinfo : r.get? c with
  | none =>
    have hparams : r.params c = [] := by rw [Registry.params, hinfo]; rfl
    rw [hparams]
    exact List.nodup_nil
  | some info =>
    have hheader : r.header? c = some (info.name, info.params) := by rw [header?, hinfo]; rfl
    rw [params_of_header? hheader]
    rcases hr.header?_cases hheader with rfl | rfl | ⟨n, decl, hdecl, rfl⟩
    · rw [hr.object] at hheader
      obtain ⟨-, hparams⟩ := Prod.mk.inj (Option.some.inj hheader)
      rw [← hparams]
      exact List.nodup_nil
    · rw [hr.tuple] at hheader
      obtain ⟨-, hparams⟩ := Prod.mk.inj (Option.some.inj hheader)
      rw [← hparams]
      exact List.nodup_singleton _
    · obtain ⟨scope, hheader', hscope, hnodup⟩ := hr.declared n decl hdecl
      rw [hheader] at hheader'
      obtain ⟨-, hparams⟩ := Prod.mk.inj (Option.some.inj hheader')
      rwa [hparams, hscope]

/-- What a name stands for. -/
theorem lookup_cases (hr : Declares decls r) (h : r.lookup name = some c) :
    name = "object" ∧ c = .object ∨ name = "tuple" ∧ c = .tuple ∨
      ∃ n decl, decls[n]? = some decl ∧ name = decl.name ∧ c = ⟨n + 3⟩ := by
  obtain ⟨params, hheader⟩ := (hr.names_iff name c).mp h
  rcases hr.header?_cases hheader with rfl | rfl | ⟨n, decl, hdecl, rfl⟩
  · exact .inl ⟨hr.name_unique h hr.lookup_object, rfl⟩
  · exact .inr (.inl ⟨hr.name_unique h hr.lookup_tuple, rfl⟩)
  · exact .inr (.inr ⟨n, decl, hdecl, hr.name_unique h (hr.lookup_declared hdecl), rfl⟩)

/-- What a name stands for is called by it. -/
theorem name?_of_lookup (hr : Declares decls r) (hc : r.lookup name = some c) :
    r.view.name? c = some name := by
  obtain ⟨params, hheader⟩ := (hr.names_iff name c).mp hc
  obtain ⟨info, hinfo, heq⟩ := Option.map_eq_some_iff.mp hheader
  show (r.get? c).map ClassInfo.name = some name
  rw [hinfo, Option.map_some, (Prod.mk.inj heq).1]

/-- A type parameter belongs to one class and has one place there. -/
theorem same_place (hr : Declares decls r) {d : ClassId} {i j : Nat} {p q : Param}
    (hp : (r.params c)[i]? = some p) (hq : (r.params d)[j]? = some q) (hid : p.id = q.id) :
    c = d ∧ i = j := by
  obtain ⟨rfl, rfl⟩ := hr.params_apart c d p q (List.mem_of_getElem? hp)
    (List.mem_of_getElem? hq) hid
  obtain ⟨hi, -⟩ := List.getElem?_eq_some_iff.mp hp
  exact ⟨rfl, (List.getElem?_inj hi (hr.param_names_nodup c).of_map).mp (hp.trans hq.symm)⟩

/-- A class has one counterpart. -/
theorem cls_unique (hr : Declares decls r) {d' : ClassId} (hc : (Renaming.byPlace r r').cls c c')
    (hd : (Renaming.byPlace r r').cls c d') : c' = d' := by
  obtain ⟨name, hc, hc'⟩ := hc
  obtain ⟨name', hd, hd'⟩ := hd
  rw [hr.name_unique hc hd, hd'] at hc'
  exact (Option.some.inj hc').symm

/-- So does a type parameter, and it is told by its identity. -/
theorem param_unique (hr : Declares decls r) {p q p' q' : Param}
    (hp : (Renaming.byPlace r r').param p p') (hq : (Renaming.byPlace r r').param q q')
    (hid : p.id = q.id) : p' = q' := by
  obtain ⟨name, c, c', i, hc, hc', hp, hp'⟩ := hp
  obtain ⟨name', d, d', j, hd, hd', hq, hq'⟩ := hq
  obtain ⟨rfl, rfl⟩ := hr.same_place hp hq hid
  obtain rfl := hr.cls_unique ⟨name, hc, hc'⟩ ⟨name', hd, hd'⟩
  exact Option.some.inj (hp'.symm.trans hq')

/-- Declarations at the same places make a one-to-one correspondence. -/
theorem oneToOne (hr : Declares decls r) (hr' : Declares decls' r') :
    (Renaming.byPlace r r').OneToOne where
  cls {c d c' d'} hc hd := by
    constructor
    · rintro rfl
      exact hr.cls_unique hc hd
    · rintro rfl
      exact hr'.cls_unique (Renaming.cls_byPlace_back hc) (Renaming.cls_byPlace_back hd)
  param hp hq := by
    constructor
    · rintro rfl
      exact hr.param_unique hp hq rfl
    · rintro rfl
      exact hr'.param_unique (Renaming.param_byPlace_back hp) (Renaming.param_byPlace_back hq) rfl
  id hp hq := by
    refine ⟨fun hid => congrArg Param.id (hr.param_unique hp hq hid), fun hid => ?_⟩
    exact congrArg Param.id
      (hr'.param_unique (Renaming.param_byPlace_back hp) (Renaming.param_byPlace_back hq) hid)

section Same

variable (hr : Declares decls r) (hr' : Declares decls' r') (hsame : SameDeclarations decls decls')

include hr hr' hsame

/-- Counterparts are built in, or they have been declared alike. -/
theorem counterparts (h : (Renaming.byPlace r r').cls c c') :
    c = .object ∧ c' = .object ∨ c = .tuple ∧ c' = .tuple ∨
      ∃ n n' decl decl', decls[n]? = some decl ∧ decls'[n']? = some decl' ∧ decl.Alike decl' ∧
        c = ⟨n + 3⟩ ∧ c' = ⟨n' + 3⟩ := by
  obtain ⟨name, hc, hc'⟩ := h
  rcases hr.lookup_cases hc with ⟨rfl, rfl⟩ | ⟨rfl, rfl⟩ | ⟨n, decl, hdecl, rfl, rfl⟩
  · rw [hr'.lookup_object] at hc'
    exact .inl ⟨rfl, (Option.some.inj hc').symm⟩
  · rw [hr'.lookup_tuple] at hc'
    exact .inr (.inl ⟨rfl, (Option.some.inj hc').symm⟩)
  · obtain ⟨decl', hmem, halike⟩ := hsame.left decl (List.mem_of_getElem? hdecl)
    obtain ⟨n', hdecl'⟩ := List.mem_iff_getElem?.mp hmem
    rw [← halike.name, hr'.lookup_declared hdecl'] at hc'
    exact .inr (.inr ⟨n, n', decl, decl', hdecl, hdecl', halike, rfl, (Option.some.inj hc').symm⟩)

omit hsame in
/-- Names of declarations stand for classes in both. -/
theorem lookup_of_names (hnames : ∀ decl ∈ decls, ∃ decl' ∈ decls', decl'.name = decl.name)
    (hc : r.lookup name = some c) : ∃ c', r'.lookup name = some c' := by
  rcases hr.lookup_cases hc with ⟨rfl, rfl⟩ | ⟨rfl, rfl⟩ | ⟨n, decl, hdecl, rfl, rfl⟩
  · exact ⟨_, hr'.lookup_object⟩
  · exact ⟨_, hr'.lookup_tuple⟩
  · obtain ⟨decl', hmem, hname⟩ := hnames decl (List.mem_of_getElem? hdecl)
    obtain ⟨n', hdecl'⟩ := List.mem_iff_getElem?.mp hmem
    exact ⟨_, hname ▸ hr'.lookup_declared hdecl'⟩

/-- Under one name there are counterparts in both registries. -/
theorem rel_lookup (name : String) :
    Option.Rel (Renaming.byPlace r r').cls (r.lookup name) (r'.lookup name) := by
  cases hc : r.lookup name with
  | some c =>
    obtain ⟨c', hc'⟩ := hr.lookup_of_names hr' (fun decl hdecl => by
      obtain ⟨decl', hdecl', halike⟩ := hsame.left decl hdecl
      exact ⟨decl', hdecl', halike.name⟩) hc
    rw [hc']
    exact .some ⟨name, hc, hc'⟩
  | none =>
    cases hc' : r'.lookup name with
    | none => exact .none
    | some c' =>
      obtain ⟨c, hc₁⟩ := hr'.lookup_of_names hr (fun decl' hdecl' => by
        obtain ⟨decl, hdecl, halike⟩ := hsame.right decl' hdecl'
        exact ⟨decl, hdecl, halike.name.symm⟩) hc'
      rw [hc] at hc₁
      cases hc₁

/-- So the registries correspond, up to bases and shapes. -/
theorem corresponds : Registry.Corresponds (.byPlace r r') r r' where
  lookup := hr.rel_lookup hr' hsame
  params c c' hc := by
    have hlength : (r.params c).length = (r'.params c').length := by
      rcases hr.counterparts hr' hsame hc with
        ⟨rfl, rfl⟩ | ⟨rfl, rfl⟩ | ⟨n, n', decl, decl', hdecl, hdecl', halike, rfl, rfl⟩
      · rw [params_of_header? hr.object, params_of_header? hr'.object]
      · rw [params_of_header? hr.tuple, params_of_header? hr'.tuple]
      · have hnames := congrArg List.length (Hierarchy.params_declared hr hdecl)
        have hnames' := congrArg List.length (Hierarchy.params_declared hr' hdecl')
        rw [List.length_map] at hnames hnames'
        rw [hnames, hnames', halike.length]
    obtain ⟨name, hname, hname'⟩ := hc
    exact forall₂_iff_getElem?.mpr ⟨hlength, fun i p p' hp hp' =>
      ⟨name, c, c', i, hname, hname', hp, hp'⟩⟩

end Same

end Registry.Declares

/-! ## Shapes in step -/

variable [Digest TypeData]

namespace Registry

variable {ρ : Renaming} {t t' : Interner}

/-- Counterparts have the same shapes, up to their marks. -/
def ShapesInStep (ρ : Renaming) (t t' : Interner) (r r' : Registry) : Prop :=
  ∀ c c', ρ.cls c c' → Option.Rel (fun shape shape' =>
    List.Forall₂ (SameElement ρ t t') shape.elements shape'.elements) (r.shape? c) (r'.shape? c')

theorem ShapesInStep.back (h : ShapesInStep ρ t t' r r') : ShapesInStep ρ.back t' t r' r := by
  intro c' c hc
  rcases rel_cases (h c c' hc) with ⟨hshape, hshape'⟩ | ⟨_, _, hshape, hshape', hes⟩
  · rw [hshape, hshape']
    exact .none
  · rw [hshape, hshape']
    exact .some (hes.flip.imp fun _ _ he => ⟨he.1.symm, he.2.back⟩)

section Cycles

variable (hshapes : ShapesInStep ρ t t' r r') (hwf : t.WellFormed) (hwf' : t'.WellFormed)

include hshapes hwf hwf'

/-- What a shape mentions, the shape of a counterpart mentions too. -/
theorem leads_counterpart (hc : ρ.cls c c') {d : ClassId} (hlead : r.Leads t c d) :
    ∃ d', r'.Leads t' c' d' ∧ ρ.cls d d' := by
  obtain ⟨shape, hshape, hd⟩ := hlead
  rcases rel_cases (hshapes c c' hc) with ⟨hnone, -⟩ | ⟨_, shape', hsome, hshape', hes⟩
  · rw [hshape] at hnone
    cases hnone
  · rw [hshape] at hsome
    obtain rfl := Option.some.inj hsome
    obtain ⟨e, he, hd⟩ := List.mem_flatMap.mp hd
    obtain ⟨e', he', -, hitem⟩ := exists_of_mem_left hes he
    obtain ⟨d', hd', hdd'⟩ := hitem.mem_classes hwf hwf' hd
    exact ⟨d', ⟨shape', hshape', List.mem_flatMap.mpr ⟨e', he', hd'⟩⟩, hdd'⟩

/-- If a shape leads back to its class, then so does that of a counterpart. -/
theorem cycle_counterpart (hρ : ρ.OneToOne) (hc : ρ.cls c c') (hcycle : TransGen (r.Leads t) c c) :
    TransGen (r'.Leads t') c' c' := by
  have hreach : ∀ d, TransGen (r.Leads t) c d →
      ∃ d', TransGen (r'.Leads t') c' d' ∧ ρ.cls d d' := by
    intro d hd
    induction hd with
    | single hlead =>
      obtain ⟨d', hlead', hdd'⟩ := leads_counterpart hshapes hwf hwf' hc hlead
      exact ⟨d', .single hlead', hdd'⟩
    | tail _ hlead ih =>
      obtain ⟨b', hpath', hbb'⟩ := ih
      obtain ⟨d', hlead', hdd'⟩ := leads_counterpart hshapes hwf hwf' hbb' hlead
      exact ⟨d', hpath'.tail hlead', hdd'⟩
  obtain ⟨d', hpath', hd'⟩ := hreach c hcycle
  rwa [← (hρ.cls hc hd').mp rfl] at hpath'

theorem cycles_iff (hρ : ρ.OneToOne) (hc : ρ.cls c c') :
    TransGen (r.Leads t) c c ↔ TransGen (r'.Leads t') c' c' :=
  ⟨cycle_counterpart hshapes hwf hwf' hρ hc, cycle_counterpart hshapes.back hwf' hwf hρ.back hc⟩

end Cycles

/-- What settles a text, settles the expression that it spells. -/
theorem settled_of_resolving {α : Type} {meaning : TypeExpr → Resolving α} {text : String} {a : α}
    (hwf : t.WellFormed) (h : Settled t (resolving meaning text).run (.ok a)) :
    ∃ e, TypeExpr.parse text = .ok e ∧ Settled t (meaning e).run (.ok a) := by
  unfold resolving at h
  cases hparse : TypeExpr.parse text with
  | ok e =>
    rw [hparse] at h
    exact ⟨e, rfl, h⟩
  | error e =>
    rw [hparse] at h
    cases h t t.le_refl hwf

end Registry

/-! ## Counterparts in two hierarchies -/

namespace Hierarchy

variable {ρ : Renaming} {h h' : Hierarchy} {t t' : Interner} {extra extra' : Nat → List Instance}
  {decl decl' : ClassDecl} {n n' : Nat}

section Denoting

variable {S : String → String → Prop} (hregistry : Registry.Corresponds ρ h.classes h'.classes)
  (habreast : Abreast ρ t t') (hle : h.types ≤ t) (hle' : h'.types ≤ t')
  (hscope : Scope.Renamed ρ S (h.classes.params c) (h'.classes.params c')) {text text' : String}
  (htext : SameText S text text')

include hregistry habreast hle hle' hscope htext

/-- In the scopes of counterparts, texts that say the same denote the same base. -/
theorem sameInstance_of_denotes {base base' : Instance} (hbase : h.Denotes c text base)
    (hbase' : h'.Denotes c' text' base') : SameInstance ρ t t' base base' := by
  obtain ⟨e, hparse, hmeans⟩ :=
    Registry.settled_of_resolving habreast.wellFormed (hbase.of_le hle)
  obtain ⟨_, hparse', hmeans'⟩ :=
    Registry.settled_of_resolving habreast.wellFormed' (hbase'.of_le hle')
  obtain ⟨e', he', hsame⟩ := htext e hparse
  obtain rfl := Except.ok.inj (hparse'.symm.trans he')
  cases Registry.inStep_resolveInstance habreast hregistry hscope hsame _ _
    (hmeans.finds habreast.wellFormed) (hmeans'.finds habreast.wellFormed') with
  | ok h => exact h

/-- They denote the same tuple. -/
theorem sameElements_of_denotesTuple {es es' : List (Element TypeId)}
    (hes : h.DenotesTuple c text es) (hes' : h'.DenotesTuple c' text' es') :
    List.Forall₂ (SameElement ρ t t') es es' := by
  obtain ⟨e, hparse, hmeans⟩ :=
    Registry.settled_of_resolving habreast.wellFormed (hes.of_le hle)
  obtain ⟨_, hparse', hmeans'⟩ :=
    Registry.settled_of_resolving habreast.wellFormed' (hes'.of_le hle')
  obtain ⟨e', he', hsame⟩ := htext e hparse
  obtain rfl := Except.ok.inj (hparse'.symm.trans he')
  cases Registry.inStep_resolveTuple habreast hregistry hscope hsame _ _
    (hmeans.finds habreast.wellFormed) (hmeans'.finds habreast.wellFormed') with
  | ok h => exact h

end Denoting

namespace Built

/-- A declared class has the shape that its text denotes. -/
theorem shape?_declared (hb : Built decls extra h) (hdecl : decls[n]? = some decl) :
    decl.tuple = none ∧ h.classes.shape? ⟨n + 3⟩ = none ∨
      ∃ text shape, decl.tuple = some text ∧ h.classes.shape? ⟨n + 3⟩ = some shape ∧
        h.DenotesTuple ⟨n + 3⟩ text shape.elements := by
  cases htext : decl.tuple with
  | some text =>
    obtain ⟨hn, -⟩ := List.getElem?_eq_some_iff.mp hdecl
    obtain ⟨shape, hshape, hdenotes⟩ := hb.shapes n hn decl hdecl text htext
    exact .inr ⟨text, shape, rfl, hshape, hdenotes⟩
  | none =>
    refine .inl ⟨rfl, Option.eq_none_iff_forall_not_mem.mpr fun shape hshape => ?_⟩
    obtain ⟨m, decl', -, hdecl', htuple, heq⟩ := hb.shapes_declared _ shape hshape
    obtain rfl : n = m := by simpa using heq
    rw [hdecl] at hdecl'
    rw [← Option.some.inj hdecl', htext] at htuple
    cases htuple

/-- The built-in classes have no shapes. -/
theorem shape?_eq_none (hb : Built decls extra h) (hc : ∀ n, c ≠ ⟨n + 3⟩) :
    h.classes.shape? c = none := by
  refine Option.eq_none_iff_forall_not_mem.mpr fun shape hshape => ?_
  obtain ⟨n, -, -, -, -, heq⟩ := hb.shapes_declared c shape hshape
  exact hc n heq

/-- No more classes have shapes than have been declared with one. -/
theorem fewShapes (hb : Built decls extra h)
    (hfew : (decls.filter (·.tuple.isSome)).length ≤ Limits.shapes) : h.classes.FewShapes := by
  intro cs hnodup hshaped
  have hsubset : cs ⊆ (decls.filter (·.tuple.isSome)).filterMap fun decl =>
      h.classes.lookup decl.name := by
    intro c hc
    obtain ⟨shape, hshape⟩ := Option.isSome_iff_exists.mp (hshaped c hc)
    obtain ⟨n, decl, -, hdecl, htuple, rfl⟩ := hb.shapes_declared c shape hshape
    rw [List.mem_filterMap]
    exact ⟨decl, List.mem_filter.mpr ⟨List.mem_of_getElem? hdecl, htuple⟩,
      hb.declares.lookup_declared hdecl⟩
  exact (List.subperm_of_subset hnodup hsubset).length_le.trans
    ((List.length_filterMap_le _ _).trans hfew)

/-- Classes of one name have extra edges in both, or in neither. -/
def SameExtras (decls decls' : List ClassDecl) (extra extra' : Nat → List Instance) : Prop :=
  ∀ n n' decl decl', decls[n]? = some decl → decls'[n']? = some decl' → decl'.name = decl.name →
    (extra n = [] ↔ extra' n' = [])

section Twice

variable (hb : Built decls extra h) (hb' : Built decls' extra' h')
  (hsame : SameDeclarations decls decls')

include hb hb' hsame

/-- The scopes of classes declared alike. -/
theorem renamed_params (halike : decl.Alike decl') (hdecl : decls[n]? = some decl)
    (hdecl' : decls'[n']? = some decl') :
    (Renaming.byPlace h.classes h'.classes).cls ⟨n + 3⟩ ⟨n' + 3⟩ ∧
      Scope.Renamed (.byPlace h.classes h'.classes) (SameWord decl.params decl'.params)
        (h.classes.params ⟨n + 3⟩) (h'.classes.params ⟨n' + 3⟩) := by
  have hc : (Renaming.byPlace h.classes h'.classes).cls ⟨n + 3⟩ ⟨n' + 3⟩ :=
    ⟨decl.name, hb.declares.lookup_declared hdecl, by
      rw [← halike.name]
      exact hb'.declares.lookup_declared hdecl'⟩
  exact ⟨hc, .of_places ((hb.declares.corresponds hb'.declares hsame).params _ _ hc)
    (params_declared hb.declares hdecl) (params_declared hb'.declares hdecl')⟩

section Later

variable (habreast : Abreast (.byPlace h.classes h'.classes) t t') (hle : h.types ≤ t)
  (hle' : h'.types ≤ t')

include habreast hle hle'

/-- Counterparts have the same shapes, up to their marks. -/
theorem shapesInStep :
    Registry.ShapesInStep (.byPlace h.classes h'.classes) t t' h.classes h'.classes := by
  intro c c' hc
  rcases hb.declares.counterparts hb'.declares hsame hc with
    ⟨rfl, rfl⟩ | ⟨rfl, rfl⟩ | ⟨n, n', decl, decl', hdecl, hdecl', halike, rfl, rfl⟩
  · rw [hb.shape?_eq_none fun _ => Linked.not_declared_object.symm,
      hb'.shape?_eq_none fun _ => Linked.not_declared_object.symm]
    exact .none
  · rw [hb.shape?_eq_none fun _ => Linked.not_declared_tuple.symm,
      hb'.shape?_eq_none fun _ => Linked.not_declared_tuple.symm]
    exact .none
  · obtain ⟨-, hscope⟩ := hb.renamed_params hb' hsame halike hdecl hdecl'
    have htexts := halike.tuple
    rcases hb.shape?_declared hdecl with ⟨htext, hshape⟩ | ⟨text, shape, htext, hshape, hes⟩ <;>
      rcases hb'.shape?_declared hdecl' with
        ⟨htext', hshape'⟩ | ⟨text', shape', htext', hshape', hes'⟩ <;>
      rw [htext, htext'] at htexts
    · rw [hshape, hshape']
      exact .none
    · cases htexts
    · cases htexts
    · cases htexts with
      | some htexts =>
        rw [hshape, hshape']
        exact .some (sameElements_of_denotesTuple (hb.declares.corresponds hb'.declares hsame)
          habreast hle hle' hscope htexts hes hes')

/-- Declared classes have the same extra edges. -/
theorem forall₂_extra (hextras : SameExtras decls decls' extra extra') (halike : decl.Alike decl')
    (hdecl : decls[n]? = some decl) (hdecl' : decls'[n']? = some decl') :
    List.Forall₂ (SameInstance (.byPlace h.classes h'.classes) t t') (extra n) (extra' n') := by
  have hiff := hextras n n' decl decl' hdecl hdecl' halike.name
  by_cases hextra : extra n = []
  · rw [hextra, hiff.mp hextra]
    exact .nil
  · obtain ⟨shape, edge, hshape, hedge, hsettled⟩ := hb.extra_sound n hextra
    obtain ⟨shape', edge', hshape', hedge', hsettled'⟩ := hb'.extra_sound n' (mt hiff.mpr hextra)
    have hes := hb.shapesInStep hb' hsame habreast hle hle' _ _
      (hb.renamed_params hb' hsame halike hdecl hdecl').1
    rw [hshape, hshape'] at hes
    cases hes with
    | some hes =>
      rw [hedge, hedge']
      exact .cons (habreast.inStep_tupleFallback
        ⟨"tuple", hb.declares.lookup_tuple, hb'.declares.lookup_tuple⟩ hes edge edge'
        ((hsettled.of_le hle).finds habreast.wellFormed)
        ((hsettled'.of_le hle').finds habreast.wellFormed')) .nil

/-- Counterparts have the same base edges. -/
theorem forall₂_bases (hextras : SameExtras decls decls' extra extra')
    (hc : (Renaming.byPlace h.classes h'.classes).cls c c') :
    List.Forall₂ (SameInstance (.byPlace h.classes h'.classes) t t') (h.classes.bases c)
      (h'.classes.bases c') := by
  rcases hb.declares.counterparts hb'.declares hsame hc with
    ⟨rfl, rfl⟩ | ⟨rfl, rfl⟩ | ⟨n, n', decl, decl', hdecl, hdecl', halike, rfl, rfl⟩
  · rw [hb.object_bases, hb'.object_bases]
    exact .nil
  · rw [hb.tuple_bases, hb'.tuple_bases]
    exact .cons (.bare ⟨"object", hb.declares.lookup_object, hb'.declares.lookup_object⟩) .nil
  · obtain ⟨-, hscope⟩ := hb.renamed_params hb' hsame halike hdecl hdecl'
    obtain ⟨bases, heq, hdenote⟩ := hb.bases n decl hdecl
    obtain ⟨bases', heq', hdenote'⟩ := hb'.bases n' decl' hdecl'
    rw [allBases_of_getElem? hdecl] at hdenote
    rw [allBases_of_getElem? hdecl'] at hdenote'
    rw [heq, heq']
    refine List.rel_append ?_
      (hb.forall₂_extra hb' hsame habreast hle hle' hextras halike hdecl hdecl')
    -- from a stored base to its text, to the other text, to the other base
    have hread : List.Forall₂ (fun base text' => ∃ text, h.Denotes ⟨n + 3⟩ text base ∧
        SameText (SameWord decl.params decl'.params) text text') bases decl'.bases :=
      forall₂_trans (fun _ text _ hbase htext => ⟨text, hbase, htext⟩) hdenote.flip halike.bases
    refine forall₂_trans ?_ hread hdenote'
    rintro base text' base' ⟨text, hbase, htext⟩ hbase'
    exact sameInstance_of_denotes (hb.declares.corresponds hb'.declares hsame) habreast hle hle'
      hscope htext hbase hbase'

/-- Counterparts have the same shapes, marks included. -/
theorem rel_sameShape (hfew : h.classes.FewShapes) (hfew' : h'.classes.FewShapes)
    (hc : (Renaming.byPlace h.classes h'.classes).cls c c') :
    Option.Rel (SameShape (.byPlace h.classes h'.classes) t t') (h.classes.shape? c)
      (h'.classes.shape? c') := by
  rcases rel_cases (hb.shapesInStep hb' hsame habreast hle hle' c c' hc) with
    ⟨hnone, hnone'⟩ | ⟨shape, shape', hshape, hshape', hes⟩
  · rw [hnone, hnone']
    exact .none
  · have hearlier : Abreast (.byPlace h.classes h'.classes) h.types h'.types :=
      ⟨habreast.oneToOne, hb.wellFormed, hb'.wellFormed,
        habreast.room.of_le hle, habreast.room'.of_le hle'⟩
    rw [hshape, hshape']
    refine .some ⟨hes, ?_⟩
    -- the marks say which shapes lead back to their classes
    rw [hb.marked c shape hshape, hb'.marked c' shape' hshape', Bool.eq_iff_iff,
      Registry.isRecursiveShape_iff hfew, Registry.isRecursiveShape_iff hfew']
    exact Registry.cycles_iff
      (hb.shapesInStep hb' hsame hearlier h.types.le_refl h'.types.le_refl) hb.wellFormed
      hb'.wellFormed habreast.oneToOne hc

end Later

/-- Declarations that say the same make hierarchies in which classes of one name look the same,
if the same classes have got extra edges. -/
theorem corresponds (hextras : SameExtras decls decls' extra extra')
    (hfew : (decls.filter (·.tuple.isSome)).length ≤ Limits.shapes)
    (hfew' : (decls'.filter (·.tuple.isSome)).length ≤ Limits.shapes) :
    Corresponds (.byPlace h.classes h'.classes) h h' where
  oneToOne := hb.declares.oneToOne hb'.declares
  registry := hb.declares.corresponds hb'.declares hsame
  view t t' hle hle' habreast := {
    name? := by
      rintro c c' ⟨name, hc, hc'⟩
      exact ⟨name, hb.declares.name?_of_lookup hc, hb'.declares.name?_of_lookup hc'⟩
    params := (hb.declares.corresponds hb'.declares hsame).params
    bases := fun c c' hc => hb.forall₂_bases hb' hsame habreast hle hle' hextras hc
    shape? := fun c c' hc => hb.rel_sameShape hb' hsame habreast hle hle' (hb.fewShapes hfew)
      (hb'.fewShapes hfew') hc
    tuple := ⟨"tuple", hb.declares.lookup_tuple, hb'.declares.lookup_tuple⟩
    size := by
      show h.classes.size = h'.classes.size
      rw [hb.declares.size, hb'.declares.size, hsame.length] }

end Twice

end Built

end Hierarchy

end Supertypes
