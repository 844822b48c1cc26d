import Supertypes.Proofs.ProperHierarchies
import Supertypes.Proofs.Shapes

/-!
# Hierarchies from declarations

- `Hierarchy.Denotes`: the base that a text denotes once and for all.
- `Hierarchy.Linked`: a hierarchy in the midst of the construction, in which each declared class
  has some of its declared bases, and perhaps an edge to `tuple` for its shape.
- `Hierarchy.Linked.ancestor_of_declaredBase` and `Hierarchy.Linked.declaredBase_of_ancestor`:
  the ancestors of a declared class are what its declared bases lead to.
- `Hierarchy.checked_bases`: the second round of the construction adds all declared bases, unless
  one denotes no instance or they form a cycle.
-/

namespace Supertypes.Hierarchy

open Interner Relation

variable {decls : List ClassDecl} {cond : Prop} {h h' : Hierarchy} {c : ClassId}
  {linked : Nat → List String} {extra : Nat → List Instance}

/-! ## What texts denote -/

section

variable [Digest TypeData]

/-- Read in the scope of the class, the text denotes this base, now and later. -/
def Denotes (h : Hierarchy) (c : ClassId) (text : String) (base : Instance) : Prop :=
  Settled h.types
    (Registry.resolving (h.classes.resolveInstance (h.classes.params c)) text).run (.ok base)

/-- Read in the scope of the class, the text denotes a tuple of these elements, now and later. -/
def DenotesTuple (h : Hierarchy) (c : ClassId) (text : String) (elements : List (Element TypeId)) :
    Prop :=
  Settled h.types
    (Registry.resolving (h.classes.resolveTuple (h.classes.params c)) text).run (.ok elements)

/-- What a text denotes it denotes later on too. -/
theorem Denotes.of_later {text : String} {base : Instance} (hdenotes : h.Denotes c text base)
    (hsame : h.classes.SameHeaders h'.classes) (hle : h.types ≤ h'.types) :
    h'.Denotes c text base := by
  unfold Denotes
  rw [Registry.resolveInstance_congr hsame.lookup hsame.params, hsame.params]
  exact hdenotes.of_le hle

/-- So it is with the tuple that a text denotes. -/
theorem DenotesTuple.of_later {text : String} {elements : List (Element TypeId)}
    (hdenotes : h.DenotesTuple c text elements) (hsame : h.classes.SameHeaders h'.classes)
    (hle : h.types ≤ h'.types) : h'.DenotesTuple c text elements := by
  unfold DenotesTuple
  rw [Registry.resolveTuple_congr hsame.lookup hsame.params, hsame.params]
  exact hdenotes.of_le hle

/-- A base that is denoted is an instance of the class whose name comes first. -/
theorem Denotes.head (hwf : h.types.WellFormed) (hdeclares : h.classes.Declares decls)
    {text : String} {base : Instance} (hdenotes : h.Denotes c text base) :
    ∃ name args, TypeExpr.parse text = .ok (.name name args) ∧
      h.classes.lookup name = some base.head :=
  ((Registry.attempt_base hwf (speaks_vocabulary hdeclares c) text).of_ok
    (hdenotes h.types h.types.le_refl hwf)).2.1

/-! ## Edges between names and between classes -/

/-- The declared classes have these of their declared bases, each followed by an extra edge or
none, and the built-in classes have theirs. -/
structure Linked (decls : List ClassDecl) (linked : Nat → List String)
    (extra : Nat → List Instance) (h : Hierarchy) : Prop extends Proper h where
  declares : h.classes.Declares decls
  object_bases : h.classes.bases .object = []
  tuple_bases : h.classes.bases .tuple = [.bare .object]
  bases : ∀ n decl, decls[n]? = some decl → ∃ bases,
    h.classes.bases ⟨n + 3⟩ = bases ++ extra n ∧
      List.Forall₂ (h.Denotes ⟨n + 3⟩) (linked n) bases
  linked_declared : ∀ n decl, decls[n]? = some decl → ∀ text ∈ linked n, text ∈ decl.bases
  extra_tuple : ∀ n, ∀ edge ∈ extra n, edge.head = .tuple

namespace Linked

omit [Digest TypeData] in
theorem not_declared_object {n : Nat} : ClassId.mk (n + 3) ≠ .object := by
  simp [ClassId.object]

omit [Digest TypeData] in
theorem not_declared_tuple {n : Nat} : ClassId.mk (n + 3) ≠ .tuple := by
  simp [ClassId.tuple]

/-- An edge is that of the built-in classes, or a declared one, or an extra one. -/
theorem parents_cases (hl : Linked decls linked extra h) {x a : ClassId}
    (ha : a ∈ h.classes.parents x) :
    x = .tuple ∧ a = .object ∨
      ∃ n decl, decls[n]? = some decl ∧ x = ⟨n + 3⟩ ∧
        ((∃ name, DeclaredBase decls decl.name name ∧ h.classes.lookup name = some a) ∨
          a = .tuple ∧ extra n ≠ []) := by
  obtain ⟨base, hbase, rfl⟩ := List.mem_map.mp ha
  obtain ⟨info, hinfo, -⟩ := Registry.get?_of_mem_bases hbase
  have hheader : h.classes.header? x = some (info.name, info.params) := by
    rw [Registry.header?, hinfo]
    rfl
  rcases hl.declares.header?_cases hheader with rfl | rfl | ⟨n, decl, hdecl, rfl⟩
  · rw [hl.object_bases] at hbase
    exact absurd hbase List.not_mem_nil
  · rw [hl.tuple_bases] at hbase
    rw [List.mem_singleton.mp hbase]
    exact .inl ⟨rfl, rfl⟩
  · refine .inr ⟨n, decl, hdecl, rfl, ?_⟩
    obtain ⟨bases, heq, hdenote⟩ := hl.bases n decl hdecl
    rw [heq] at hbase
    rcases List.mem_append.mp hbase with hbase | hbase
    · -- a declared base
      obtain ⟨text, htext, hdenotes⟩ := exists_of_mem_right hdenote hbase
      obtain ⟨name, args, hparse, hlookup⟩ := hdenotes.head hl.wellFormed hl.declares
      exact .inl ⟨name, ⟨decl, List.mem_of_getElem? hdecl, rfl, text,
        hl.linked_declared n decl hdecl text htext, args, hparse⟩, hlookup⟩
    · exact .inr ⟨hl.extra_tuple n base hbase, List.ne_nil_of_mem hbase⟩

/-- The parents of a declared class are named by its bases, or the edge to `tuple` is extra. -/
theorem declared_parents (hl : Linked decls linked extra h) {n : Nat} {decl : ClassDecl}
    {a : ClassId} (hdecl : decls[n]? = some decl) (ha : a ∈ h.classes.parents ⟨n + 3⟩) :
    (∃ name, DeclaredBase decls decl.name name ∧ h.classes.lookup name = some a) ∨
      a = .tuple ∧ extra n ≠ [] := by
  rcases hl.parents_cases ha with ⟨heq, -⟩ | ⟨k, decl', hdecl', heq, hedge⟩
  · exact absurd heq not_declared_tuple
  · obtain rfl : n = k := by simpa using heq
    rw [hdecl] at hdecl'
    rwa [Option.some.inj hdecl']

/-- A path to a declared class leads along declared bases. -/
theorem declaredBase_of_ancestor (hl : Linked decls linked extra h) {x : ClassId} {m : Nat}
    {last : ClassDecl} (hlast : decls[m]? = some last) (ha : h.classes.Ancestor x ⟨m + 3⟩) :
    ∃ n decl, decls[n]? = some decl ∧ x = ⟨n + 3⟩ ∧
      TransGen (DeclaredBase decls) decl.name last.name := by
  have hstep : ∀ {y m' last'}, decls[m']? = some last' →
      (⟨m' + 3⟩ : ClassId) ∈ h.classes.parents y →
      ∃ n decl, decls[n]? = some decl ∧ y = ⟨n + 3⟩ ∧ DeclaredBase decls decl.name last'.name := by
    intro y m' last' hlast' hy
    rcases hl.parents_cases hy with
      ⟨-, heq⟩ | ⟨n, decl, hdecl, rfl, ⟨name, hbase, hlookup⟩ | ⟨heq, -⟩⟩
    · exact absurd heq not_declared_object
    · rw [hl.declares.name_unique hlookup (hl.declares.lookup_declared hlast')] at hbase
      exact ⟨n, decl, hdecl, rfl, hbase⟩
    · exact absurd heq not_declared_tuple
  -- induction along the ancestors, from the class itself upwards
  have hgen : ∀ a, h.classes.Ancestor x a → ∀ m last, decls[m]? = some last → a = ⟨m + 3⟩ →
      ∃ n decl, decls[n]? = some decl ∧ x = ⟨n + 3⟩ ∧
        TransGen (DeclaredBase decls) decl.name last.name := by
    intro a ha
    induction ha with
    | single hxa =>
      rintro m last hlast rfl
      obtain ⟨n, decl, hdecl, rfl, hbase⟩ := hstep hlast hxa
      exact ⟨n, decl, hdecl, rfl, .single hbase⟩
    | tail _ hba ih =>
      rintro m last hlast rfl
      obtain ⟨k, mid, hmid, rfl, hbase⟩ := hstep hlast hba
      obtain ⟨n, decl, hdecl, rfl, hpath⟩ := ih k mid hmid rfl
      exact ⟨n, decl, hdecl, rfl, hpath.tail hbase⟩
  exact hgen _ ha m last hlast rfl

end Linked

/-- All declared bases have been added. -/
def allBases (decls : List ClassDecl) (n : Nat) : List String :=
  (decls[n]?).elim [] ClassDecl.bases

omit [Digest TypeData] in
theorem allBases_of_getElem? {n : Nat} {decl : ClassDecl} (hdecl : decls[n]? = some decl) :
    allBases decls n = decl.bases := by
  rw [allBases, hdecl]
  rfl

namespace Linked

/-- Declared bases of a name are parents of its class. -/
theorem parents_of_declaredBase (hl : Linked decls (allBases decls) extra h) {name base : String}
    (hbase : DeclaredBase decls name base) :
    ∃ x a, h.classes.lookup name = some x ∧ h.classes.lookup base = some a ∧
      a ∈ h.classes.parents x := by
  obtain ⟨decl, hmem, rfl, text, htext, args, hparse⟩ := hbase
  obtain ⟨n, hdecl⟩ := List.mem_iff_getElem?.mp hmem
  obtain ⟨bases, heq, hdenote⟩ := hl.bases n decl hdecl
  rw [allBases_of_getElem? hdecl] at hdenote
  obtain ⟨edge, hedge, hdenotes⟩ := exists_of_mem_left hdenote htext
  obtain ⟨name, args', hparse', hlookup⟩ := hdenotes.head hl.wellFormed hl.declares
  rw [hparse] at hparse'
  obtain ⟨rfl, -⟩ := TypeExpr.name.inj (Except.ok.inj hparse')
  refine ⟨⟨n + 3⟩, edge.head, hl.declares.lookup_declared hdecl, hlookup, ?_⟩
  refine List.mem_map_of_mem ?_
  rw [heq]
  exact List.mem_append_left _ hedge

/-- A path of names is a path of classes. -/
theorem ancestor_of_declaredBase (hl : Linked decls (allBases decls) extra h)
    {name base : String} (hpath : TransGen (DeclaredBase decls) name base) :
    ∃ x a, h.classes.lookup name = some x ∧ h.classes.lookup base = some a ∧
      h.classes.Ancestor x a := by
  induction hpath with
  | single hbase =>
    obtain ⟨x, a, hx, ha, hparent⟩ := hl.parents_of_declaredBase hbase
    exact ⟨x, a, hx, ha, .single hparent⟩
  | tail _ hbase ih =>
    obtain ⟨x, b, hx, hb, hpath⟩ := ih
    obtain ⟨b', a, hb', ha, hparent⟩ := hl.parents_of_declaredBase hbase
    rw [hb] at hb'
    obtain rfl := Option.some.inj hb'
    exact ⟨x, a, hx, ha, hpath.tail hparent⟩

/-- In a hierarchy the declared bases form no cycle. -/
theorem declaredBase_acyclic (hl : Linked decls (allBases decls) extra h) (name : String) :
    ¬ TransGen (DeclaredBase decls) name name := by
  intro hpath
  obtain ⟨x, a, hx, ha, hancestor⟩ := hl.ancestor_of_declaredBase hpath
  rw [hx] at ha
  obtain rfl := Option.some.inj ha
  exact hl.acyclic x hancestor

end Linked

/-! ## The second round -/

namespace Linked

/-- Interning types changes nothing in what has been declared. -/
theorem intern (hl : Linked decls linked extra h) {types : Interner} (hle : h.types ≤ types)
    (hwf : types.WellFormed) : Linked decls linked extra { h with types } where
  toProper := hl.toProper.intern hle hwf
  declares := hl.declares
  object_bases := hl.object_bases
  tuple_bases := hl.tuple_bases
  bases n decl hdecl := by
    obtain ⟨bases, heq, hdenote⟩ := hl.bases n decl hdecl
    exact ⟨bases, heq, hdenote.imp fun _ _ hd => hd.of_later (.refl _) hle⟩
  linked_declared := hl.linked_declared
  extra_tuple := hl.extra_tuple

/-- A class gets one more of its declared bases. -/
theorem withBase (hl : Linked decls linked extra h) {n : Nat} {decl : ClassDecl}
    (hdecl : decls[n]? = some decl) (hextra : extra n = []) {text : String}
    (htext : text ∈ decl.bases) {base : Instance} (ha : h.Admits ⟨n + 3⟩ base)
    (hbase : h.types.ProperInstance (h.vocabulary ⟨n + 3⟩) base)
    (hdenotes : h.Denotes ⟨n + 3⟩ text base) :
    Linked decls (Function.update linked n (linked n ++ [text])) extra
      (h.withBase ⟨n + 3⟩ base) := by
  have hsame := Proper.sameHeaders_withBase h ⟨n + 3⟩ base
  -- what is denoted before is denoted after the edge has been added
  have hlater : ∀ {m text base'}, h.Denotes ⟨m + 3⟩ text base' →
      (h.withBase ⟨n + 3⟩ base).Denotes ⟨m + 3⟩ text base' :=
    fun hd => hd.of_later hsame (Interner.le_refl _)
  refine {
    toProper := hl.toProper.withBase ha hbase
    declares := hl.declares.of_sameHeaders hsame
    object_bases := ?_
    tuple_bases := ?_
    bases := ?_
    linked_declared := ?_
    extra_tuple := hl.extra_tuple }
  · rw [bases_withBase ha.known, if_neg not_declared_object.symm, List.append_nil]
    exact hl.object_bases
  · rw [bases_withBase ha.known, if_neg not_declared_tuple.symm, List.append_nil]
    exact hl.tuple_bases
  · intro m d hd
    obtain ⟨bases, heq, hdenote⟩ := hl.bases m d hd
    rw [bases_withBase ha.known, heq]
    by_cases hm : m = n
    · subst hm
      rw [if_pos rfl, hextra, List.append_nil, Function.update_self]
      refine ⟨bases ++ [base], by rw [List.append_nil], ?_⟩
      exact List.rel_append (hdenote.imp fun _ _ hd => hlater hd) (.cons (hlater hdenotes) .nil)
    · rw [if_neg (by simpa using hm), List.append_nil, Function.update_of_ne hm]
      exact ⟨bases, rfl, hdenote.imp fun _ _ hd => hlater hd⟩
  · intro m d hd text' htext'
    by_cases hm : m = n
    · subst hm
      rw [hdecl] at hd
      obtain rfl := Option.some.inj hd
      rw [Function.update_self] at htext'
      rcases List.mem_append.mp htext' with hold | hnew
      · exact hl.linked_declared m decl hdecl text' hold
      · exact List.mem_singleton.mp hnew ▸ htext
    · rw [Function.update_of_ne hm] at htext'
      exact hl.linked_declared m d hd text' htext'

end Linked

/-- The classes have some of their declared bases, and nothing else has been added. -/
structure Basing (decls : List ClassDecl) (linked : Nat → List String) (r : Registry)
    (h : Hierarchy) : Prop extends Linked decls linked (fun _ => []) h where
  no_shapes : ∀ c, h.classes.shape? c = none
  headers : r.SameHeaders h.classes

/-- After the first round the built-in edge is the only one. -/
theorem Basing.start (hr : Registry.Registered decls h.classes) (htypes : h.types = {}) :
    Basing decls (fun _ => []) h.classes h := by
  -- there are no types yet, and the one base edge has no arguments
  have hargs : h.types.args (.bare .object) = [] := by
    rw [htypes]
    rfl
  have hobject : h.classes.contains .object = true := Registry.contains_of_header? hr.object
  have hnullary : h.classes.params .object = [] := Registry.params_of_header? hr.object
  have hwf : h.types.WellFormed := by
    rw [htypes]
    exact .empty
  have hbases : ∀ c, ∀ base ∈ h.classes.bases c, c = .tuple ∧ base = .bare .object := by
    intro c base hbase
    rw [hr.bases_eq, Registry.bases_builtin] at hbase
    split at hbase
    · rename_i hc
      exact ⟨hc, List.mem_singleton.mp hbase⟩
    · exact absurd hbase List.not_mem_nil
  have hproper : ∀ c, ∀ base ∈ h.classes.bases c, h.types.ProperInstance (h.vocabulary c) base := by
    intro c base hbase
    obtain ⟨rfl, rfl⟩ := hbases c base hbase
    have harity : 0 = (h.classes.params .object).length := by rw [hnullary]; rfl
    refine ⟨?_, ⟨hobject, by rw [hargs]; exact harity⟩, ?_⟩
    · rw [htypes]
      exact Nat.zero_le _
    · rw [hargs]
      exact fun a ha => absurd ha List.not_mem_nil
  -- no shape is set before the third round
  have hno : ∀ c shape, h.classes.shape? c ≠ some shape := by
    intro c shape hshape
    rw [hr.shape?_eq] at hshape
    cases hshape
  have htuple : h.classes.params .tuple = [⟨⟨1⟩, "T_co"⟩] := Registry.params_of_header? hr.tuple
  exact {
    wellFormed := hwf
    bases_issued := fun c base hbase => (hproper c base hbase).issued
    shapes_issued := fun c shape hshape => absurd hshape (hno c shape)
    bases_valid := fun c base hbase => edgeValid_of_proper (hproper c base hbase)
    acyclic := Registry.acyclic_builtin.of_parents_subset fun c a ha => by
      rwa [Registry.parents, hr.bases_eq] at ha
    tuple_unary := ⟨Registry.contains_of_header? hr.tuple, by rw [htuple]; rfl⟩
    bases_proper := hproper
    shapes_proper := fun c shape hshape => absurd hshape (hno c shape)
    declares := hr.toDeclares
    object_bases := by rw [hr.bases_eq]; rfl
    tuple_bases := by rw [hr.bases_eq]; rfl
    bases := fun n decl _ => ⟨[], by
      rw [hr.bases_eq, Registry.bases_builtin, if_neg Linked.not_declared_tuple]
      rfl, .nil⟩
    linked_declared := fun n decl _ text htext => absurd htext List.not_mem_nil
    extra_tuple := fun n edge hedge => absurd hedge List.not_mem_nil
    no_shapes := hr.shape?_eq
    headers := .refl _ }

end

theorem params_declared {r : Registry} (hr : r.Declares decls) {n : Nat} {decl : ClassDecl}
    (hdecl : decls[n]? = some decl) : (r.params ⟨n + 3⟩).map Param.name = decl.params := by
  obtain ⟨scope, hheader, hscope, -⟩ := hr.declared n decl hdecl
  rw [Registry.params_of_header? hheader, hscope]

theorem contains_declared {r : Registry} (hr : r.Declares decls) {n : Nat} {decl : ClassDecl}
    (hdecl : decls[n]? = some decl) : r.contains ⟨n + 3⟩ = true := by
  obtain ⟨scope, hheader, -⟩ := hr.declared n decl hdecl
  exact Registry.contains_of_header? hheader

/-- A declared base closes no cycle, if the declared bases have none. -/
theorem Linked.no_cycle [Digest TypeData] (hl : Linked decls linked extra h)
    (hacyclic : ∀ name, ¬ TransGen (DeclaredBase decls) name name) {n : Nat} {decl : ClassDecl}
    (hdecl : decls[n]? = some decl) {name : String} (hbase : DeclaredBase decls decl.name name)
    {a : ClassId} (ha : h.classes.lookup name = some a) :
    h.classes.wouldCycle ⟨n + 3⟩ a = false := by
  rw [Bool.eq_false_iff, ne_eq, Registry.wouldCycle_iff]
  rintro (rfl | hancestor)
  · rw [hl.declares.name_unique ha (hl.declares.lookup_declared hdecl)] at hbase
    exact hacyclic decl.name (.single hbase)
  · obtain ⟨m, decl', hdecl', rfl, hpath⟩ := hl.declaredBase_of_ancestor hdecl hancestor
    rw [hl.declares.name_unique ha (hl.declares.lookup_declared hdecl')] at hbase
    exact hacyclic decl.name (hpath.head hbase)

/-- One declared base is added, unless the declarations make no hierarchy. -/
theorem checked_declareBase [Digest TypeData] {r : Registry} (hcond : cond → WellDeclared decls)
    (hb : Basing decls linked r h) {n : Nat} {decl : ClassDecl} (hdecl : decls[n]? = some decl)
    {text : String} (htext : text ∈ decl.bases) :
    Checked cond h (do
      let r' := (← get).classes
      let i ← resolving (.invalidBase text decl.name)
        (Registry.resolving (r'.resolveInstance (r.params ⟨n + 3⟩)) text)
      editing (.rejectedBase text decl.name) (addBase ⟨n + 3⟩ i))
      fun _ => Basing decls (Function.update linked n (linked n ++ [text])) r := by
  have hmem : decl ∈ decls := List.mem_of_getElem? hdecl
  have hparams : h.classes.params ⟨n + 3⟩ = r.params ⟨n + 3⟩ := hb.headers.params ⟨n + 3⟩
  refine .get ?_
  rw [← hparams]
  -- the text denotes an instance, or it is refused as the declarations say
  have hattempt := Registry.attempt_base hb.wellFormed (speaks_vocabulary hb.declares ⟨n + 3⟩) text
  rw [hb.declares.arity_eq, params_declared hb.declares hdecl] at hattempt
  refine .bind (P := fun base h' => h'.classes = h.classes ∧
    Linked decls linked (fun _ => []) h' ∧ h'.Denotes ⟨n + 3⟩ text base ∧
    h'.types.ProperInstance (h'.vocabulary ⟨n + 3⟩) base)
    (.resolving hattempt (fun hc => (hcond hc).bases_mean decl hmem text htext) ?_) ?_
  · rintro base types hle hwf hsettled - ⟨-, hbase⟩
    exact ⟨rfl, hb.toLinked.intern hle hwf, hsettled,
      hbase.proper (spans_vocabulary h _ types)⟩
  rintro base h₁ ⟨hclasses, hl, hdenotes, hbase⟩
  have hvalid := edgeValid_of_proper hbase
  have hknown : h₁.classes.contains ⟨n + 3⟩ = true := contains_declared hl.declares hdecl
  refine .editing ?_ ?_
  · -- the edge has been added
    intro _ h₂ hrun
    rcases addBase_cases h₁ ⟨n + 3⟩ base with ⟨e, herror⟩ | ⟨ha, hadded⟩
    · rw [herror] at hrun
      cases hrun
    · rw [hadded] at hrun
      obtain ⟨-, rfl⟩ := Prod.mk.inj hrun
      refine {
        toLinked := hl.withBase hdecl rfl htext ha hbase hdenotes
        no_shapes := ?_
        headers := ?_ }
      · intro c
        rw [Option.eq_none_iff_forall_not_mem]
        intro shape hshape
        have hold := shape?_withBase hshape
        rw [hclasses, hb.no_shapes] at hold
        cases hold
      · have hsame := Proper.sameHeaders_withBase h₁ ⟨n + 3⟩ base
        rw [hclasses] at hsame
        exact hb.headers.trans hsame
  · -- it has been refused, which can only be for a cycle
    intro e h₂ hrun hc
    obtain ⟨name, args, hparse, hlookup⟩ := hdenotes.head hl.wellFormed hl.declares
    have hdeclared : DeclaredBase decls decl.name name :=
      ⟨decl, hmem, rfl, text, htext, args, hparse⟩
    have ha : h₁.Admits ⟨n + 3⟩ base := {
      toEdgeValid := hvalid
      known := hknown
      no_cycle := hl.no_cycle (hcond hc).acyclic hdecl hdeclared hlookup }
    rw [addBase_of_admits ha] at hrun
    cases hrun

theorem getElem?_of_split {α : Type} {xs done rest : List α} {a : α} (h : xs = done ++ a :: rest) :
    xs[done.length]? = some a := by
  rw [h, List.getElem?_append_right (Nat.le_refl _), Nat.sub_self]
  rfl

/-- The texts of the first classes. -/
def firstBases (decls : List ClassDecl) (k n : Nat) : List String :=
  if n < k then allBases decls n else []

/-- The bases of one more class are declared. -/
theorem update_firstBases {k : Nat} {decl : ClassDecl} (hdecl : decls[k]? = some decl) :
    Function.update (firstBases decls k) k decl.bases = firstBases decls (k + 1) := by
  funext n
  unfold firstBases
  rcases Nat.lt_trichotomy n k with hn | rfl | hn
  · rw [Function.update_of_ne (by omega), if_pos hn, if_pos (by omega)]
  · rw [Function.update_self, if_pos (by omega), allBases_of_getElem? hdecl]
  · rw [Function.update_of_ne (by omega), if_neg (by omega), if_neg (by omega)]

/-- In the end all bases are declared. -/
theorem firstBases_length (decls : List ClassDecl) :
    firstBases decls decls.length = allBases decls := by
  funext n
  unfold firstBases
  split
  · rfl
  · rename_i hn
    rw [allBases, List.getElem?_eq_none (by omega)]
    rfl

/-- The declared classes with their identities and the parameters that they have in `r`. -/
def declaredClasses (decls : List ClassDecl) (r : Registry) :
    List (ClassDecl × ClassId × Scope) :=
  decls.mapIdx fun n decl => (decl, ⟨n + 3⟩, r.params ⟨n + 3⟩)

/-- A declared class is registered behind the two built-in ones, and its scope holds its
parameters. -/
theorem getElem?_declaredClasses {r : Registry} {n : Nat} {decl : ClassDecl} {scope : Scope}
    (h : (declaredClasses decls r)[n]? = some (decl, c, scope)) :
    decls[n]? = some decl ∧ c = ⟨n + 3⟩ ∧ scope = r.params ⟨n + 3⟩ := by
  unfold declaredClasses at h
  rw [List.getElem?_mapIdx] at h
  obtain ⟨decl', hdecl', heq⟩ := Option.map_eq_some_iff.mp h
  obtain ⟨hfst, hsnd⟩ := Prod.mk.inj heq
  obtain ⟨hc, hscope⟩ := Prod.mk.inj hsnd
  exact ⟨hfst ▸ hdecl', hc.symm, hscope.symm⟩

variable [Digest TypeData]

/-- The second round of the construction adds all declared bases. -/
theorem checked_bases {r : Registry} (hcond : cond → WellDeclared decls)
    (hb : Basing decls (fun _ => []) r h) :
    Checked cond h ((declaredClasses decls r).forM fun (decl, c, scope) =>
      declareBases decl c scope) fun _ => Basing decls (allBases decls) r := by
  have hlength : (declaredClasses decls r).length = decls.length := List.length_mapIdx ..
  have hstart : Basing decls (firstBases decls ([] : List (ClassDecl × ClassId × Scope)).length)
      r h := by
    have hnone : firstBases decls 0 = fun _ => [] := rfl
    exact hnone ▸ hb
  refine (Checked.forM (fun done => Basing decls (firstBases decls done.length) r) hstart ?_).mono
    fun _ h' hb' => ?_
  · rintro done ⟨decl, c, scope⟩ rest h' heq hb'
    obtain ⟨hdecl, rfl, rfl⟩ := getElem?_declaredClasses (getElem?_of_split heq)
    -- the bases of one class
    have hstart' : Basing decls
        (Function.update (firstBases decls done.length) done.length ([] : List String)) r h' := by
      have hnone : firstBases decls done.length done.length = [] := if_neg (Nat.lt_irrefl _)
      rw [← hnone, Function.update_eq_self]
      exact hb'
    refine (Checked.forM (fun texts => Basing decls
      (Function.update (firstBases decls done.length) done.length texts) r) hstart' ?_).mono ?_
    · intro texts text rest' h'' heq' hb''
      have htext : text ∈ decl.bases := by simp [heq']
      have hstep := checked_declareBase hcond hb'' hdecl htext
      rw [Function.update_self, Function.update_idem] at hstep
      exact hstep
    · intro _ h'' hb''
      rw [update_firstBases hdecl] at hb''
      rwa [List.length_append]
  · rwa [hlength, firstBases_length] at hb'

/-! ## The third round -/

namespace Linked

/-- A class gets the tuple class as a base after all of its declared ones. -/
theorem withExtra (hl : Linked decls linked extra h) {n : Nat} (hextra : extra n = [])
    {base : Instance} (ha : h.Admits ⟨n + 3⟩ base)
    (hbase : h.types.ProperInstance (h.vocabulary ⟨n + 3⟩) base) (hhead : base.head = .tuple) :
    Linked decls linked (Function.update extra n [base]) (h.withBase ⟨n + 3⟩ base) := by
  have hsame := Proper.sameHeaders_withBase h ⟨n + 3⟩ base
  refine {
    toProper := hl.toProper.withBase ha hbase
    declares := hl.declares.of_sameHeaders hsame
    object_bases := ?_
    tuple_bases := ?_
    bases := ?_
    linked_declared := hl.linked_declared
    extra_tuple := ?_ }
  · rw [bases_withBase ha.known, if_neg not_declared_object.symm, List.append_nil]
    exact hl.object_bases
  · rw [bases_withBase ha.known, if_neg not_declared_tuple.symm, List.append_nil]
    exact hl.tuple_bases
  -- the extra edge stands behind all declared ones
  · intro m d hd
    obtain ⟨bases, heq, hdenote⟩ := hl.bases m d hd
    refine ⟨bases, ?_, hdenote.imp fun _ _ hd => hd.of_later hsame (Interner.le_refl _)⟩
    rw [bases_withBase ha.known, heq]
    by_cases hm : m = n
    · subst hm
      rw [if_pos rfl, hextra, List.append_nil, Function.update_self]
    · rw [if_neg (by simpa using hm), List.append_nil, Function.update_of_ne hm]
  · intro m edge hedge
    by_cases hm : m = n
    · subst hm
      rw [Function.update_self] at hedge
      exact List.mem_singleton.mp hedge ▸ hhead
    · rw [Function.update_of_ne hm] at hedge
      exact hl.extra_tuple m edge hedge

/-- Setting a shape leaves the base edges as they are. -/
theorem withShape (hl : Linked decls linked extra h) {elements : List (Element TypeId)}
    (helements : ∀ e ∈ elements, h.types.Proper (h.vocabulary c) e.item) :
    Linked decls linked extra (h.withShape c elements) where
  toProper := hl.toProper.withShape helements
  declares := hl.declares.of_sameHeaders (Proper.sameHeaders_withShape h c elements)
  object_bases := (bases_withShape h c elements .object).trans hl.object_bases
  tuple_bases := (bases_withShape h c elements .tuple).trans hl.tuple_bases
  bases n decl hdecl := by
    obtain ⟨bases, heq, hdenote⟩ := hl.bases n decl hdecl
    rw [bases_withShape]
    exact ⟨bases, heq, hdenote.imp fun _ _ hd =>
      hd.of_later (Proper.sameHeaders_withShape h c elements) (Interner.le_refl _)⟩
  linked_declared := hl.linked_declared
  extra_tuple := hl.extra_tuple

/-- A class that is a tuple is one by its declared bases, by an extra edge of its own, or by the
extra edge of a class that its declared bases lead to. -/
theorem tuple_of_ancestor (hl : Linked decls linked extra h) {n : Nat} {decl : ClassDecl}
    (hdecl : decls[n]? = some decl) (ha : h.classes.Ancestor ⟨n + 3⟩ .tuple) :
    TransGen (DeclaredBase decls) decl.name "tuple" ∨ extra n ≠ [] ∨
      ∃ m decl', decls[m]? = some decl' ∧ extra m ≠ [] ∧
        TransGen (DeclaredBase decls) decl.name decl'.name := by
  -- induction along the ancestors, from `tuple` downwards
  have hgen : ∀ x, h.classes.Ancestor x .tuple → ∀ n decl, decls[n]? = some decl → x = ⟨n + 3⟩ →
      TransGen (DeclaredBase decls) decl.name "tuple" ∨ extra n ≠ [] ∨
        ∃ m decl', decls[m]? = some decl' ∧ extra m ≠ [] ∧
          TransGen (DeclaredBase decls) decl.name decl'.name := by
    intro x hx
    induction hx using TransGen.head_induction_on with
    -- an edge to `tuple` itself is declared or extra
    | single hparent =>
      rintro n decl hdecl rfl
      rcases hl.declared_parents hdecl hparent with ⟨name, hbase, hlookup⟩ | ⟨-, hextra⟩
      · rw [hl.declares.name_unique hlookup hl.declares.lookup_tuple] at hbase
        exact .inl (.single hbase)
      · exact .inr (.inl hextra)
    | head hparent hrest ih =>
      rintro n decl hdecl rfl
      rcases hl.declared_parents hdecl hparent with ⟨name, hbase, hlookup⟩ | ⟨-, hextra⟩
      · -- the next class has been declared as well, since `object` has no bases
        obtain ⟨params, hheader⟩ := (hl.declares.names_iff _ _).mp hlookup
        rcases hl.declares.header?_cases hheader with rfl | rfl | ⟨m, mid, hmid, rfl⟩
        · obtain ⟨next, hnext, -⟩ := TransGen.head'_iff.mp hrest
          obtain ⟨base, hbase', -⟩ := List.mem_map.mp hnext
          rw [hl.object_bases] at hbase'
          exact absurd hbase' List.not_mem_nil
        · exact absurd hrest (hl.acyclic .tuple)
        · rw [hl.declares.name_unique hlookup (hl.declares.lookup_declared hmid)] at hbase
          rcases ih m mid hmid rfl with htuple | hextra | ⟨k, last, hlast, hextra, hpath⟩
          · exact .inl (htuple.head hbase)
          · exact .inr (.inr ⟨m, mid, hmid, hextra, .single hbase⟩)
          · exact .inr (.inr ⟨k, last, hlast, hextra, hpath.head hbase⟩)
      · exact .inr (.inl hextra)
  exact hgen _ ha n decl hdecl rfl

end Linked

end Supertypes.Hierarchy
