import Supertypes.Proofs.Declarations

/-!
# Declared tuple shapes

- `Hierarchy.Marked`: recursive shapes are marked as such.
- `Hierarchy.Shaped`: all declared bases have been added, and the shapes of the first classes
  have been set. Setting one more never fails.
- `Hierarchy.ofClasses_ok`: what is known of a hierarchy that declarations make.
- `Hierarchy.ofClasses_iff`: the declarations that make a hierarchy, and the bases that the
  classes have in it.
-/

namespace Supertypes

namespace Registry

variable {r r' : Registry} {types : Interner}

/-! ## Recursion marks -/

variable [Digest TypeData]

/-- A search through shapes looks at nothing but their elements. -/
theorem shapeReaches_congr
    (h : ∀ c, (r'.shape? c).map TupleShape.elements = (r.shape? c).map TupleShape.elements)
    (target : ClassId) (fuel : Nat) :
    r'.shapeReaches types target fuel = r.shapeReaches types target fuel := by
  induction fuel with
  | zero => rfl
  | succ fuel ih =>
    funext current
    have hcurrent := h current
    unfold shapeReaches
    rw [ih]
    cases hshape : r.shape? current with
    | none =>
      rw [hshape, Option.map_none, Option.map_eq_none_iff] at hcurrent
      rw [hcurrent]
    | some shape =>
      rw [hshape, Option.map_some] at hcurrent
      obtain ⟨shape', hshape', heq⟩ := Option.map_eq_some_iff.mp hcurrent
      have hmentioned : mentioned types shape' = mentioned types shape := by
        unfold mentioned
        rw [heq]
      rw [hshape']
      dsimp only
      rw [hmentioned]

/-- The search for a way back reads the elements of shapes and nothing else. -/
theorem isRecursiveShape_congr
    (h : ∀ c, (r'.shape? c).map TupleShape.elements = (r.shape? c).map TupleShape.elements)
    (c : ClassId) : r'.isRecursiveShape types c = r.isRecursiveShape types c := by
  unfold isRecursiveShape
  rw [shapeReaches_congr h]

end Registry

namespace Hierarchy

open Interner Relation

section

variable [Digest TypeData]

variable {decls : List ClassDecl} {cond : Prop} {h h' h₁ : Hierarchy} {c : ClassId}
  {extra extra' : Nat → List Instance} {k : Nat} {decl : ClassDecl}
  {elements : List (Element TypeId)} {text : String}

/-- The marks of the shapes say which ones are recursive. -/
def Marked (h : Hierarchy) : Prop :=
  ∀ c shape, h.classes.shape? c = some shape →
    shape.isRecursive = h.classes.isRecursiveShape h.types c

theorem marked_withShape (h : Hierarchy) (c : ClassId) (elements : List (Element TypeId)) :
    (h.withShape c elements).Marked := by
  intro d shape hshape
  unfold withShape at hshape ⊢
  dsimp only at hshape ⊢
  rw [Registry.shape?_markRecursion_eq] at hshape
  obtain ⟨old, -, rfl⟩ := Option.map_eq_some_iff.mp hshape
  refine (Registry.isRecursiveShape_congr (fun d' => ?_) d).symm
  rw [Registry.shape?_markRecursion_eq, Option.map_map]
  rfl

/-! ## Setting shapes -/

omit [Digest TypeData] in
theorem shape?_withBase_eq (h : Hierarchy) (c : ClassId) (base : Instance) (d : ClassId) :
    (h.withBase c base).classes.shape? d = h.classes.shape? d := by
  unfold withBase
  rw [Registry.shape?_update]
  split <;> rfl

/-- The elements of the shapes after one has been set. -/
theorem elements_withShape (hc : h.classes.contains c = true) (elements : List (Element TypeId))
    (d : ClassId) :
    ((h.withShape c elements).classes.shape? d).map TupleShape.elements =
      if d = c then some elements else (h.classes.shape? d).map TupleShape.elements := by
  unfold withShape
  rw [Registry.shape?_markRecursion_eq, Option.map_map, Registry.shape?_update]
  split
  · rename_i hd
    obtain ⟨info, hinfo⟩ := Registry.get?_of_contains hc
    rw [hd, hinfo]
    rfl
  · rfl

theorem shape?_withShape_self (hc : h.classes.contains c = true)
    (elements : List (Element TypeId)) : ∃ shape,
      (h.withShape c elements).classes.shape? c = some shape ∧ shape.elements = elements := by
  have helems := elements_withShape hc elements c
  rw [if_pos rfl] at helems
  exact Option.map_eq_some_iff.mp helems

/-- Other classes keep the elements of their shapes. -/
theorem shape?_withShape_of_ne (hc : h.classes.contains c = true) (elements : List (Element TypeId))
    {d : ClassId} (hd : d ≠ c) {shape : TupleShape} (hshape : h.classes.shape? d = some shape) :
    ∃ shape', (h.withShape c elements).classes.shape? d = some shape' ∧
      shape'.elements = shape.elements := by
  have helems := elements_withShape hc elements d
  rw [if_neg hd, hshape] at helems
  exact Option.map_eq_some_iff.mp helems

/-- A class with a shape needs an edge to `tuple`: neither do its declared bases lead there, nor
do they lead to a class before it that has got such an edge. -/
structure NeedsEdge (decls : List ClassDecl) (extra : Nat → List Instance) (n : Nat)
    (decl : ClassDecl) : Prop where
  tuple : decl.tuple.isSome
  no_path : ¬ TransGen (DeclaredBase decls) decl.name "tuple"
  none_before : ∀ m < n, ∀ decl', decls[m]? = some decl' → extra m ≠ [] →
    ¬ TransGen (DeclaredBase decls) decl.name decl'.name

omit [Digest TypeData] in
/-- Whether a class needs an edge depends on the classes before it. -/
theorem NeedsEdge.of_before {n : Nat} (hneeds : NeedsEdge decls extra n decl)
    (heq : ∀ m < n, extra' m = extra m) : NeedsEdge decls extra' n decl where
  tuple := hneeds.tuple
  no_path := hneeds.no_path
  none_before m hm decl' hdecl' hextra := by
    rw [heq m hm] at hextra
    exact hneeds.none_before m hm decl' hdecl' hextra

/-- All declared bases have been added, and the shapes of the first `k` classes have been set. -/
structure Shaped (decls : List ClassDecl) (k : Nat) (extra : Nat → List Instance)
    (h : Hierarchy) : Prop extends Linked decls (allBases decls) extra h where
  shapes : ∀ n < k, ∀ decl, decls[n]? = some decl → ∀ text ∈ decl.tuple, ∃ shape,
    h.classes.shape? ⟨n + 3⟩ = some shape ∧ h.DenotesTuple ⟨n + 3⟩ text shape.elements
  shapes_declared : ∀ c shape, h.classes.shape? c = some shape →
    ∃ n decl, n < k ∧ decls[n]? = some decl ∧ decl.tuple.isSome ∧ c = ⟨n + 3⟩
  /-- The extra edge of a class comes from its shape. -/
  extra_sound : ∀ n, extra n ≠ [] → ∃ shape edge, h.classes.shape? ⟨n + 3⟩ = some shape ∧
    extra n = [edge] ∧ Settled h.types (tupleFallback .tuple shape.elements) edge
  /-- It has one just if nothing else makes it a tuple when its shape is set. -/
  extra_iff : ∀ n < k, ∀ decl, decls[n]? = some decl →
    (extra n ≠ [] ↔ NeedsEdge decls extra n decl)

namespace Shaped

/-- Nothing has been set. -/
theorem start {r : Registry} (hb : Basing decls (allBases decls) r h) :
    Shaped decls 0 (fun _ => []) h where
  toLinked := hb.toLinked
  shapes n hn := absurd hn (Nat.not_lt_zero n)
  shapes_declared c shape hshape := by
    rw [hb.no_shapes] at hshape
    cases hshape
  extra_sound n hextra := absurd rfl hextra
  extra_iff n hn := absurd hn (Nat.not_lt_zero n)

theorem intern (hs : Shaped decls k extra h) {types : Interner} (hle : h.types ≤ types)
    (hwf : types.WellFormed) : Shaped decls k extra { h with types } where
  toLinked := hs.toLinked.intern hle hwf
  shapes n hn decl hdecl text htext := by
    obtain ⟨shape, hshape, hdenotes⟩ := hs.shapes n hn decl hdecl text htext
    exact ⟨shape, hshape, hdenotes.of_later (.refl _) hle⟩
  shapes_declared := hs.shapes_declared
  extra_sound n hextra := by
    obtain ⟨shape, edge, hshape, hedge, hsettled⟩ := hs.extra_sound n hextra
    exact ⟨shape, edge, hshape, hedge, hsettled.of_le hle⟩
  extra_iff := hs.extra_iff

/-- The next class has neither a shape nor an extra edge. -/
theorem shape?_next (hs : Shaped decls k extra h) : h.classes.shape? ⟨k + 3⟩ = none := by
  rw [Option.eq_none_iff_forall_not_mem]
  intro shape hshape
  obtain ⟨n, -, hn, -, -, heq⟩ := hs.shapes_declared _ shape hshape
  have hnumber : k + 3 = n + 3 := congrArg ClassId.number heq
  omega

theorem extra_next (hs : Shaped decls k extra h) : extra k = [] := by
  by_contra hextra
  obtain ⟨shape, -, hshape, -⟩ := hs.extra_sound k hextra
  rw [hs.shape?_next] at hshape
  cases hshape

/-- A class without a shape is passed over. -/
theorem skip (hs : Shaped decls k extra h) (hdecl : decls[k]? = some decl)
    (hnone : decl.tuple = none) : Shaped decls (k + 1) extra h where
  toLinked := hs.toLinked
  shapes n hn d hd text htext := by
    rcases Nat.lt_succ_iff_lt_or_eq.mp hn with hn | rfl
    · exact hs.shapes n hn d hd text htext
    · rw [hdecl] at hd
      rw [← Option.some.inj hd, hnone] at htext
      cases htext
  shapes_declared c shape hshape := by
    obtain ⟨n, d, hn, hd⟩ := hs.shapes_declared c shape hshape
    exact ⟨n, d, Nat.lt_succ_of_lt hn, hd⟩
  extra_sound := hs.extra_sound
  extra_iff n hn d hd := by
    rcases Nat.lt_succ_iff_lt_or_eq.mp hn with hn | rfl
    · exact hs.extra_iff n hn d hd
    · refine ⟨absurd hs.extra_next, fun hneeds => ?_⟩
      have htuple := hneeds.tuple
      rw [hdecl] at hd
      rw [← Option.some.inj hd, hnone] at htuple
      cases htuple

/-- The next class gets its shape, after it has got an extra edge or not. -/
theorem withShape (hs : Shaped decls k extra h) (hl : Linked decls (allBases decls) extra' h₁)
    (hsame : h.classes.SameHeaders h₁.classes) (hle : h.types ≤ h₁.types)
    (hshapes : ∀ d, h₁.classes.shape? d = h.classes.shape? d) (hdecl : decls[k]? = some decl)
    (htext : text ∈ decl.tuple) (hdenotes : h₁.DenotesTuple ⟨k + 3⟩ text elements)
    (helements : ∀ e ∈ elements, h₁.types.Proper (h₁.vocabulary ⟨k + 3⟩) e.item)
    (hother : ∀ n, n ≠ k → extra' n = extra n)
    (hextra : extra' k = [] ∧ ¬ NeedsEdge decls extra k decl ∨
      NeedsEdge decls extra k decl ∧ ∃ edge, extra' k = [edge] ∧
        Settled h₁.types (tupleFallback .tuple elements) edge) :
    Shaped decls (k + 1) extra' (h₁.withShape ⟨k + 3⟩ elements) := by
  have hsame' := Proper.sameHeaders_withShape h₁ ⟨k + 3⟩ elements
  have htuple : decl.tuple.isSome := by
    rw [Option.mem_def.mp htext]
    rfl
  have hknown := contains_declared hl.declares hdecl
  have hnew := shape?_withShape_self hknown elements
  have hold : ∀ {n shape}, n ≠ k → h.classes.shape? ⟨n + 3⟩ = some shape →
      ∃ shape', (h₁.withShape ⟨k + 3⟩ elements).classes.shape? ⟨n + 3⟩ = some shape' ∧
        shape'.elements = shape.elements :=
    fun hn hshape => shape?_withShape_of_ne hknown elements (by simpa using hn)
      ((hshapes _).trans hshape)
  refine {
    toLinked := hl.withShape helements
    shapes := ?_
    shapes_declared := ?_
    extra_sound := ?_
    extra_iff := ?_ }
  · intro n hn d hd text' htext'
    rcases Nat.lt_succ_iff_lt_or_eq.mp hn with hn | rfl
    · obtain ⟨shape, hshape, hdenotes'⟩ := hs.shapes n hn d hd text' htext'
      obtain ⟨shape', hshape', heq⟩ := hold (Nat.ne_of_lt hn) hshape
      exact ⟨shape', hshape', heq ▸ hdenotes'.of_later (hsame.trans hsame') hle⟩
    · rw [hdecl] at hd
      obtain rfl := Option.some.inj hd
      obtain rfl := Option.some.inj (htext.symm.trans htext')
      obtain ⟨shape, hshape, heq⟩ := hnew
      exact ⟨shape, hshape, heq ▸ hdenotes.of_later hsame' (Interner.le_refl _)⟩
  · intro d shape hshape
    have hd := elements_withShape hknown elements d
    rw [hshape, Option.map_some] at hd
    by_cases heq : d = ⟨k + 3⟩
    · exact ⟨k, decl, Nat.lt_succ_self k, hdecl, htuple, heq⟩
    · rw [if_neg heq, hshapes] at hd
      obtain ⟨old, hold', -⟩ := Option.map_eq_some_iff.mp hd.symm
      obtain ⟨n, d', hn, hd'⟩ := hs.shapes_declared d old hold'
      exact ⟨n, d', Nat.lt_succ_of_lt hn, hd'⟩
  · intro n hn
    by_cases hnk : n = k
    · subst hnk
      rcases hextra with ⟨hnone, -⟩ | ⟨-, edge, hedge, hsettled⟩
      · exact absurd hnone hn
      · obtain ⟨shape, hshape, heq⟩ := hnew
        exact ⟨shape, edge, hshape, hedge, heq ▸ hsettled⟩
    · rw [hother n hnk] at hn ⊢
      obtain ⟨shape, edge, hshape, hedge, hsettled⟩ := hs.extra_sound n hn
      obtain ⟨shape', hshape', heq⟩ := hold hnk hshape
      exact ⟨shape', edge, hshape', hedge, heq ▸ hsettled.of_le hle⟩
  · intro n hn d hd
    -- the classes before have the edges that they had
    have hbefore : ∀ m < n, extra' m = extra m := fun m hm => hother m (by omega)
    have hneeds : NeedsEdge decls extra' n d ↔ NeedsEdge decls extra n d :=
      ⟨fun h => h.of_before fun m hm => (hbefore m hm).symm, fun h => h.of_before hbefore⟩
    rw [hneeds]
    rcases Nat.lt_succ_iff_lt_or_eq.mp hn with hn | rfl
    · rw [hother n (Nat.ne_of_lt hn)]
      exact hs.extra_iff n hn d hd
    · rw [hdecl] at hd
      obtain rfl := Option.some.inj hd
      rcases hextra with ⟨hnone, hnot⟩ | ⟨hyes, edge, hedge, -⟩
      · exact iff_of_false (not_not.mpr hnone) hnot
      · exact iff_of_true (by simp [hedge]) hyes

/-- Elements of the vocabulary of a class mention own parameters only. -/
theorem shapeOwn_of_proper
    (helements : ∀ e ∈ elements, h.types.Proper (h.vocabulary c) e.item) :
    h.ShapeOwn c elements :=
  fun e he p hp => ⟨p, mem_params_of_mentions (helements e he) hp, rfl⟩

/-- Only classes whose shapes have been set have extra edges. -/
theorem lt_of_extra (hs : Shaped decls k extra h) {m : Nat} (hextra : extra m ≠ []) : m < k := by
  obtain ⟨shape, -, hshape, -⟩ := hs.extra_sound m hextra
  obtain ⟨n, -, hn, -, -, heq⟩ := hs.shapes_declared _ shape hshape
  obtain rfl : m = n := by simpa using heq
  exact hn

/-- A class with a shape that is no tuple yet needs an edge, whatever has been set before. -/
theorem needsEdge_of_not_derives (hs : Shaped decls k extra h) (hdecl : decls[k]? = some decl)
    (htext : text ∈ decl.tuple) (hder : h.classes.derives ⟨k + 3⟩ .tuple = false) :
    NeedsEdge decls extra k decl := by
  have hnot : ¬ h.classes.Ancestor ⟨k + 3⟩ .tuple := by
    rw [← Registry.derives_iff, hder]
    exact Bool.false_ne_true
  have hlookup := hs.declares.lookup_declared hdecl
  refine ⟨by rw [Option.mem_def.mp htext]; rfl, fun hpath => hnot ?_, ?_⟩
  · obtain ⟨x, a, hx, ha, hancestor⟩ := hs.toLinked.ancestor_of_declaredBase hpath
    rw [hlookup] at hx
    rw [hs.declares.lookup_tuple] at ha
    rwa [Option.some.inj hx, Option.some.inj ha]
  · intro m _ decl' hdecl' hextra hpath
    obtain ⟨x, a, hx, ha, hancestor⟩ := hs.toLinked.ancestor_of_declaredBase hpath
    rw [hlookup] at hx
    rw [hs.declares.lookup_declared hdecl'] at ha
    rw [← Option.some.inj hx, ← Option.some.inj ha] at hancestor
    -- the extra edge of the class above leads on to `tuple`
    obtain ⟨-, edge, -, hedge, -⟩ := hs.extra_sound m hextra
    have hmem : edge ∈ extra m := by rw [hedge]; exact List.mem_singleton_self edge
    obtain ⟨bases, hbases, -⟩ := hs.bases m decl' hdecl'
    refine hnot (hancestor.tail (List.mem_map.mpr ⟨edge, ?_, hs.extra_tuple m edge hmem⟩))
    rw [hbases]
    exact List.mem_append_right _ hmem

/-- An edge from a declared class to `tuple` closes no cycle. -/
theorem wouldCycle_tuple (hl : Linked decls (allBases decls) extra h) (n : Nat) :
    h.classes.wouldCycle ⟨n + 3⟩ .tuple = false := by
  rw [Bool.eq_false_iff, ne_eq, Registry.wouldCycle_iff]
  rintro (heq | hancestor)
  · exact Linked.not_declared_tuple heq
  · -- nothing but `object` is above `tuple`
    have habove : ∀ a, h.classes.Ancestor .tuple a → a = .object := by
      intro a ha
      induction ha with
      | single hparent =>
        obtain ⟨base, hbase, rfl⟩ := List.mem_map.mp hparent
        rw [hl.tuple_bases] at hbase
        rw [List.mem_singleton.mp hbase]
        rfl
      | tail _ hparent ih =>
        subst ih
        obtain ⟨base, hbase, -⟩ := List.mem_map.mp hparent
        rw [hl.object_bases] at hbase
        exact absurd hbase List.not_mem_nil
    exact Linked.not_declared_object (habove _ hancestor)

/-- The next shape is never refused. -/
theorem setTupleShape (hs : Shaped decls k extra h) (hdecl : decls[k]? = some decl)
    (htext : text ∈ decl.tuple) (hdenotes : h.DenotesTuple ⟨k + 3⟩ text elements)
    (helements : ∀ e ∈ elements, h.types.Proper (h.vocabulary ⟨k + 3⟩) e.item) :
    ∃ h' extra', (Hierarchy.setTupleShape ⟨k + 3⟩ elements).run.run h = (.ok (), h') ∧
      Shaped decls (k + 1) extra' h' ∧ h'.Marked ∧ h.classes.SameHeaders h'.classes := by
  have hknown := contains_declared hs.declares hdecl
  have hitems : ∀ e ∈ elements, h.types.Issued e.item := fun e he => (helements e he).issued
  cases hder : h.classes.derives ⟨k + 3⟩ .tuple with
  | true =>
    refine ⟨_, extra, setTupleShape_of_derives hknown hder elements, ?_, marked_withShape _ _ _,
      Proper.sameHeaders_withShape ..⟩
    refine hs.withShape hs.toLinked (.refl _) h.types.le_refl (fun _ => rfl) hdecl htext hdenotes
      helements (fun _ _ => rfl) (.inl ⟨hs.extra_next, fun hneeds => ?_⟩)
    rcases hs.toLinked.tuple_of_ancestor hdecl (Registry.derives_iff.mp hder) with
      htuple | hextra | ⟨m, decl', hdecl', hextra, hpath⟩
    · exact hneeds.no_path htuple
    · exact hextra hs.extra_next
    · exact hneeds.none_before m (hs.lt_of_extra hextra) decl' hdecl' hextra hpath
  | false =>
    -- the edge to `tuple` is added first
    have hunary : (h.vocabulary ⟨k + 3⟩).takes .tuple 1 := by
      refine ⟨hs.tuple_unary.1, hs.tuple_unary.2.symm⟩
    have hjoined := conforms_tupleFallback hs.wellFormed trivial hunary
      fun e he => (helements e he).conforms
    have hedge := hjoined.post.2.proper (spans_vocabulary h _ _)
    have ha : (h.joined elements).2.Admits ⟨k + 3⟩ (h.joined elements).1 :=
      (admits_joined_iff hs.toSound hitems hknown).mpr
        ⟨wouldCycle_tuple hs.toLinked k, .inr (shapeOwn_of_proper helements)⟩
    have hl := (hs.toLinked.intern hjoined.le hjoined.wellFormed).withExtra hs.extra_next ha hedge
      hjoined.post.1
    have hsame := Proper.sameHeaders_withBase (h.joined elements).2 ⟨k + 3⟩ (h.joined elements).1
    refine ⟨((h.joined elements).2.withBase ⟨k + 3⟩ (h.joined elements).1).withShape ⟨k + 3⟩
        elements,
      Function.update extra k [(h.joined elements).1], ?_, ?_, marked_withShape _ _ _,
      hsame.trans (Proper.sameHeaders_withShape ..)⟩
    · rw [setTupleShape_of_not_derives hknown hder, addBase_of_admits ha]
    · refine hs.withShape hl hsame hjoined.le (shape?_withBase_eq _ _ _) hdecl htext
        (hdenotes.of_later hsame hjoined.le) ?_ (fun n hn => Function.update_of_ne hn ..)
        (.inr ⟨?_, (h.joined elements).1, Function.update_self .., hjoined.settled⟩)
      · intro e he
        rw [vocabulary_eq hsame]
        exact (helements e he).of_le hs.wellFormed hjoined.le
      · exact hs.needsEdge_of_not_derives hdecl htext hder

end Shaped

/-- One declared shape is set, unless its text denotes no tuple. -/
theorem checked_declareShape {r : Registry} (hcond : cond → WellDeclared decls)
    (hs : Shaped decls k extra h) (hmarked : h.Marked) (hr : r.SameHeaders h.classes)
    (hdecl : decls[k]? = some decl) :
    Checked cond h (declareShape decl ⟨k + 3⟩ (r.params ⟨k + 3⟩)) fun _ h' =>
      (∃ extra', Shaped decls (k + 1) extra' h') ∧ h'.Marked ∧ r.SameHeaders h'.classes := by
  unfold declareShape
  cases htext : decl.tuple with
  | none => exact .pure ⟨⟨extra, hs.skip hdecl htext⟩, hmarked, hr⟩
  | some text =>
    -- the text denotes a tuple, or it is refused as the declarations say
    refine .get ?_
    rw [← hr.params ⟨k + 3⟩]
    have hattempt := Registry.attempt_resolving hs.wellFormed text fun e _ he =>
      Registry.attempt_resolveTuple hs.wellFormed
        (speaks_vocabulary hs.declares ⟨k + 3⟩).toSpeaksTypes he
    rw [hs.declares.arity_eq, params_declared hs.declares hdecl] at hattempt
    refine .bind (P := fun elements h' => ∃ types, h' = { h with types } ∧
      Shaped decls k extra h' ∧ h'.DenotesTuple ⟨k + 3⟩ text elements ∧
      ∀ e ∈ elements, h'.types.Proper (h'.vocabulary ⟨k + 3⟩) e.item)
      (.resolving hattempt (fun hc => (hcond hc).shapes_mean decl (List.mem_of_getElem? hdecl) text
        htext) ?_) ?_
    · rintro elements types hle hwf hsettled - helements
      exact ⟨types, rfl, hs.intern hle hwf, hsettled,
        fun e he => (helements e he).2 (spans_vocabulary h _ types)⟩
    · rintro elements h₁ ⟨types, rfl, hs₁, hdenotes, helements⟩
      obtain ⟨h', extra', hrun, hs', hmarked', hsame⟩ :=
        hs₁.setTupleShape hdecl htext hdenotes helements
      -- setting a shape that denotes a tuple never fails
      refine .editing ?_ ?_
      · intro _ h'' hrun'
        rw [hrun] at hrun'
        obtain ⟨-, rfl⟩ := Prod.mk.inj hrun'
        exact ⟨⟨extra', hs'⟩, hmarked', hr.trans hsame⟩
      · intro e h'' hrun'
        rw [hrun] at hrun'
        cases (Prod.mk.inj hrun').1

/-- A hierarchy that declarations make. -/
structure Built (decls : List ClassDecl) (extra : Nat → List Instance) (h : Hierarchy) :
    Prop extends Shaped decls decls.length extra h where
  marked : h.Marked

/-- The construction yields the hierarchy of the declarations, unless they make none. -/
theorem checked_declareAll (hcond : cond → WellDeclared decls) :
    Checked cond {} (declareAll decls) fun _ h => ∃ extra, Built decls extra h := by
  unfold declareAll
  refine (checked_register hcond).bind ?_
  rintro declared h₁ ⟨htypes, hregistered, rfl⟩
  refine (checked_bases hcond (.start hregistered htypes)).bind ?_
  intro _ h₂ hb₂
  -- the third round
  have hlength : (declaredClasses decls h₁.classes).length = decls.length := List.length_mapIdx ..
  have hmarked₂ : h₂.Marked := by
    intro c shape hshape
    rw [hb₂.no_shapes] at hshape
    cases hshape
  refine (Checked.forM (fun done h => (∃ extra, Shaped decls done.length extra h) ∧ h.Marked ∧
    h₁.classes.SameHeaders h.classes) ⟨⟨_, .start hb₂⟩, hmarked₂, hb₂.headers⟩ ?_).mono ?_
  · rintro done ⟨decl, c, scope⟩ rest h heq ⟨⟨extra, hs⟩, hmarked, hsame⟩
    obtain ⟨hdecl, rfl, rfl⟩ := getElem?_declaredClasses (getElem?_of_split heq)
    rw [List.length_append]
    exact checked_declareShape hcond hs hmarked hsame hdecl
  · rintro _ h ⟨⟨extra, hs⟩, hmarked, -⟩
    rw [show (List.mapIdx _ decls).length = decls.length from hlength] at hs
    exact ⟨extra, hs, hmarked⟩

/-! ## Hierarchies of declarations -/

namespace Built

/-- A base that is stored is denoted by its text. -/
theorem bases_mean (hb : Built decls extra h) :
    ∀ decl ∈ decls, ∀ text ∈ decl.bases,
      TypeExpr.Parses text (TypeExpr.MeansInstance (declaredArity decls) decl.params) := by
  intro decl hmem text htext
  obtain ⟨n, hdecl⟩ := List.mem_iff_getElem?.mp hmem
  obtain ⟨bases, -, hdenote⟩ := hb.bases n decl hdecl
  rw [allBases_of_getElem? hdecl] at hdenote
  obtain ⟨base, -, hdenotes⟩ := exists_of_mem_left hdenote htext
  have hattempt :=
    Registry.attempt_base hb.wellFormed (speaks_vocabulary hb.declares ⟨n + 3⟩) text
  rw [hb.declares.arity_eq, params_declared hb.declares hdecl] at hattempt
  exact (hattempt.of_ok (hdenotes h.types h.types.le_refl hb.wellFormed)).1

/-- In a hierarchy that has been built every shape denotes a tuple. -/
theorem shapes_mean (hb : Built decls extra h) :
    ∀ decl ∈ decls, ∀ text ∈ decl.tuple,
      TypeExpr.Parses text (TypeExpr.MeansTuple (declaredArity decls) decl.params) := by
  intro decl hmem text htext
  obtain ⟨n, hdecl⟩ := List.mem_iff_getElem?.mp hmem
  obtain ⟨hn, -⟩ := List.getElem?_eq_some_iff.mp hdecl
  obtain ⟨shape, -, hdenotes⟩ := hb.shapes n hn decl hdecl text htext
  have hattempt := Registry.attempt_resolving hb.wellFormed text fun e _ he =>
    Registry.attempt_resolveTuple hb.wellFormed
      (speaks_vocabulary hb.declares ⟨n + 3⟩).toSpeaksTypes he
  rw [hb.declares.arity_eq, params_declared hb.declares hdecl] at hattempt
  exact (hattempt.of_ok (hdenotes h.types h.types.le_refl hb.wellFormed)).1

/-- What makes a hierarchy has been in order. -/
theorem wellDeclared (hb : Built decls extra h) : WellDeclared decls where
  names_nodup := hb.declares.names_nodup
  not_builtin decl hdecl := hb.declares.not_builtin hdecl
  params_nodup decl hmem := by
    obtain ⟨n, hdecl⟩ := List.mem_iff_getElem?.mp hmem
    obtain ⟨-, -, -, hnodup⟩ := hb.declares.declared n decl hdecl
    exact hnodup
  bases_mean := hb.bases_mean
  acyclic := hb.toLinked.declaredBase_acyclic
  shapes_mean := hb.shapes_mean

/-- An extra edge belongs to a class with a shape. -/
theorem extra_cases (hb : Built decls extra h) {n : Nat} (hdecl : decls[n]? = some decl) :
    extra n = [] ∨ decl.tuple.isSome ∧ ∃ edge, extra n = [edge] ∧ edge.head = .tuple := by
  by_cases hextra : extra n = []
  · exact .inl hextra
  · obtain ⟨-, edge, -, hedge, -⟩ := hb.extra_sound n hextra
    have hneeds := (hb.extra_iff n (hb.lt_of_extra hextra) decl hdecl).mp hextra
    refine .inr ⟨hneeds.tuple, edge, hedge, hb.extra_tuple n edge ?_⟩
    rw [hedge]
    exact List.mem_singleton_self edge

end Built

theorem ofClasses_run (decls : List ClassDecl) :
    ofClasses decls =
      match (declareAll decls).run.run {} with
      | (.ok (), h) => .ok h
      | (.error e, _) => .error e :=
  rfl

/-- What is known of a hierarchy that declarations make. -/
theorem ofClasses_ok (h : ofClasses decls = .ok h') : ∃ extra, Built decls extra h' := by
  have hchecked : Checked False {} (declareAll decls) _ := checked_declareAll False.elim
  unfold Checked at hchecked
  rw [ofClasses_run] at h
  rcases hrun : (declareAll decls).run.run {} with ⟨_ | ⟨⟩, h₁⟩
  · rw [hrun] at h
    cases h
  · rw [hrun] at h hchecked
    obtain rfl := Except.ok.inj h
    exact hchecked

/-- Declarations that are in order make a hierarchy. -/
theorem ofClasses_of_wellDeclared (hwell : WellDeclared decls) : ∃ h, ofClasses decls = .ok h := by
  have hchecked : Checked (WellDeclared decls) {} (declareAll decls) _ := checked_declareAll id
  unfold Checked at hchecked
  rw [ofClasses_run]
  rcases hrun : (declareAll decls).run.run {} with ⟨_ | ⟨⟩, h₁⟩
  · rw [hrun] at hchecked
    exact absurd hwell hchecked
  · exact ⟨h₁, rfl⟩

/-- Declarations make a hierarchy just if they are in order. Then each declared class has what
its declared bases denote as its bases, in the order of declaration, and after them at most one
more, an instance of `tuple`, which only classes with a tuple shape may have. -/
theorem ofClasses_iff (decls : List ClassDecl) :
    ((∃ h, ofClasses decls = .ok h) ↔ WellDeclared decls) ∧
    ∀ h, ofClasses decls = .ok h → ∀ n decl, decls[n]? = some decl →
      ∃ info bases extra, h.classes.get? ⟨n + 3⟩ = some info ∧ info.name = decl.name ∧
        info.params.map Param.name = decl.params ∧ info.bases = bases ++ extra ∧
        List.Forall₂ (fun text base =>
          (Registry.resolving (h.classes.resolveInstance info.params) text).run.run h.types =
            (.ok base, h.types)) decl.bases bases ∧
        (extra = [] ∨
          decl.tuple.isSome ∧ ∃ edge, extra = [edge] ∧ edge.head = .tuple) := by
  refine ⟨⟨?_, ofClasses_of_wellDeclared⟩, ?_⟩
  · rintro ⟨h, hok⟩
    obtain ⟨extra, hb⟩ := ofClasses_ok hok
    exact hb.wellDeclared
  · intro h hok n decl hdecl
    -- one construction leads there, and what is known of it says it all
    obtain ⟨extra, hb⟩ := ofClasses_ok hok
    obtain ⟨scope, hheader, hscope, -⟩ := hb.declares.declared n decl hdecl
    obtain ⟨info, hinfo, hnames⟩ := Option.map_eq_some_iff.mp hheader
    obtain ⟨hname, hparams⟩ := Prod.mk.inj hnames
    obtain ⟨bases, heq, hdenote⟩ := hb.bases n decl hdecl
    rw [allBases_of_getElem? hdecl] at hdenote
    refine ⟨info, bases, extra n, hinfo, hname, hparams ▸ hscope, ?_, ?_, hb.extra_cases hdecl⟩
    · rw [← heq, Registry.bases, hinfo]
      rfl
    · refine hdenote.imp fun text base hdenotes => ?_
      rw [← Registry.params_of_get? hinfo]
      exact hdenotes h.types h.types.le_refl hb.wellFormed

end

theorem ok_of_toOption {ε α : Type} {x : Except ε α} {a : α} (h : x.toOption = some a) :
    x = .ok a := by
  cases x with
  | ok _ => exact congrArg Except.ok (Option.some.inj h)
  | error _ => cases h

theorem run_eq_of_toOption {ε α σ : Type} {p : Except ε α × σ} {a : α}
    (h : p.1.toOption = some a) : p = (.ok a, p.2) := by
  rw [← ok_of_toOption h]

/-- A pair type declared as a tuple, and a class below it. -/
def pairDecls : List ClassDecl :=
  [{ name := "Couple", bases := ["Pair[Any]"] },
    { name := "Pair", params := ["T"], tuple := some "(T, T)" }]

/-- The class may come before its base, and the base gets an edge to `tuple` for its shape. -/
theorem wellDeclared_pairDecls :
    WellDeclared pairDecls ∧ ∃ h info bases edge, ofClasses pairDecls = .ok h ∧
      h.classes.get? ⟨4⟩ = some info ∧ info.bases = bases ++ [edge] ∧ bases = [] ∧
      edge.head = .tuple := by
  have hrun : ((ofClasses pairDecls).toOption.map fun h => (h.classes.bases ⟨4⟩).length) =
      some 1 := by
    decide +kernel
  obtain ⟨h, hok, hlength⟩ := Option.map_eq_some_iff.mp hrun
  replace hok := ok_of_toOption hok
  obtain ⟨hiff, hbases⟩ := ofClasses_iff pairDecls
  obtain ⟨info, bases, extra, hinfo, -, -, heq, hdenote, hextra⟩ :=
    hbases h hok 1 { name := "Pair", params := ["T"], tuple := some "(T, T)" } rfl
  cases hdenote
  refine ⟨hiff.mp ⟨h, hok⟩, ?_⟩
  rcases hextra with rfl | ⟨-, edge, rfl, hhead⟩
  · rw [Registry.bases, hinfo] at hlength
    rw [Option.elim_some, heq] at hlength
    cases hlength
  · exact ⟨h, info, [], edge, hok, hinfo, heq, rfl, hhead⟩

end Hierarchy

end Supertypes
