import Supertypes.Proofs.Registering

/-!
# Proper hierarchies

- `Hierarchy.vocabulary`: what the types in the declaration of a class may be made of. The
  classes are registered and take as many arguments as they have parameters, and the parameters
  are those of the class.
- `Hierarchy.Proper`: the base edges and the tuple shapes are made of these vocabularies. New
  types, new edges and new shapes keep it so.
- `Registry.SameHeaders`: two registries have the same classes, by name and parameters.
-/

namespace Supertypes

namespace Registry

variable {r r' r'' : Registry}

/-! ## Names and parameters -/

/-- The classes are the same by name and parameters. -/
structure SameHeaders (r r' : Registry) : Prop where
  size : r'.size = r.size
  lookup : ∀ name, r'.lookup name = r.lookup name
  header : ∀ c, r'.header? c = r.header? c

namespace SameHeaders

theorem refl (r : Registry) : SameHeaders r r :=
  ⟨rfl, fun _ => rfl, fun _ => rfl⟩

theorem trans (h : SameHeaders r r') (h' : SameHeaders r' r'') : SameHeaders r r'' where
  size := h'.size.trans h.size
  lookup name := (h'.lookup name).trans (h.lookup name)
  header c := (h'.header c).trans (h.header c)

theorem update (r : Registry) (c : ClassId) {f : ClassInfo → ClassInfo}
    (hf : ∀ info, (f info).name = info.name ∧ (f info).params = info.params) :
    SameHeaders r (r.update c f) where
  size := by
    obtain ⟨_ | n⟩ := c
    · rfl
    · exact List.length_modify ..
  lookup name := by
    obtain ⟨_ | n⟩ := c
    · rfl
    · rfl
  header := r.header?_update c hf

theorem markRecursion [Digest TypeData] (r : Registry) (types : Interner) :
    SameHeaders r (r.markRecursion types) where
  size := List.length_mapIdx ..
  lookup _ := rfl
  header := r.header?_markRecursion types

theorem contains (h : SameHeaders r r') (c : ClassId) : r'.contains c = r.contains c := by
  rw [contains_eq_header?, contains_eq_header?, h.header c]

theorem params (h : SameHeaders r r') (c : ClassId) : r'.params c = r.params c := by
  rw [params_eq_header?, params_eq_header?, h.header c]

end SameHeaders

theorem Declares.of_sameHeaders {decls : List ClassDecl} (hr : Declares decls r)
    (h : SameHeaders r r') : Declares decls r' where
  size := h.size.trans hr.size
  object := (h.header _).trans hr.object
  tuple := (h.header _).trans hr.tuple
  declared n decl hdecl := by
    obtain ⟨scope, hheader, hscope⟩ := hr.declared n decl hdecl
    exact ⟨scope, (h.header _).trans hheader, hscope⟩
  names_iff name c := by
    rw [h.lookup, h.header]
    exact hr.names_iff name c
  params_apart c c' p p' hp hp' hid := by
    rw [h.params] at hp hp'
    exact hr.params_apart c c' p p' hp hp' hid

end Registry

variable [Digest TypeData]

namespace Hierarchy

open Interner

variable {h h' : Hierarchy} {c : ClassId}

/-! ## Vocabularies -/

/-- What the types in the declaration of a class may be made of. -/
def vocabulary (h : Hierarchy) (c : ClassId) : Vocabulary where
  leaf _ := True
  param p := p ∈ h.classes.params c
  takes d n := h.classes.contains d = true ∧ n = (h.classes.params d).length

theorem spans_vocabulary (h : Hierarchy) (c : ClassId) (t : Interner) :
    Spans (h.vocabulary c) t :=
  spans_of_leaf (fun _ => trivial) t

omit [Digest TypeData] in
theorem vocabulary_eq (hsame : h.classes.SameHeaders h'.classes) (c : ClassId) :
    h'.vocabulary c = h.vocabulary c := by
  unfold vocabulary
  simp only [hsame.contains, hsame.params]

/-- Expressions in the scope of a class are resolved to types of its vocabulary. -/
theorem speaks_vocabulary {decls : List ClassDecl} (hdeclares : h.classes.Declares decls)
    (c : ClassId) : h.classes.Speaks (h.classes.params c) (h.vocabulary c) where
  param _ _ _ hp := List.mem_of_find?_eq_some hp
  explicit _ := trivial
  never _ := trivial
  unannotated := trivial
  takes _ _ _ _ hd _ := ⟨hdeclares.contains_of_lookup hd, rfl⟩
  heads _ _ _ hd := ⟨hdeclares.contains_of_lookup hd, rfl⟩

/-- Parameters that occur in a type of the vocabulary belong to the class. -/
theorem mem_params_of_mentions {t : Interner} {id : TypeId} (hid : t.Proper (h.vocabulary c) id)
    {p : Param} (hp : t.Mentions id p) : p ∈ h.classes.params c := by
  obtain ⟨x, hx, hdata⟩ := hp
  exact (hid.of_occurs hx).param_of_param hdata

theorem edgeValid_of_proper {base : Instance}
    (hbase : h.types.ProperInstance (h.vocabulary c) base) : h.EdgeValid c base where
  registered := hbase.takes.1
  arity := hbase.takes.2
  own arg harg p hp := ⟨p, mem_params_of_mentions (hbase.args arg harg) hp, rfl⟩

/-! ## Edges and shapes -/

/-- Base edges and tuple shapes are made of the vocabularies of their classes. -/
structure Proper (h : Hierarchy) : Prop extends Sound h where
  bases_proper : ∀ c, ∀ base ∈ h.classes.bases c, h.types.ProperInstance (h.vocabulary c) base
  shapes_proper : ∀ c shape, h.classes.shape? c = some shape →
    ∀ e ∈ shape.elements, h.types.Proper (h.vocabulary c) e.item

namespace Proper

/-- New types. -/
theorem intern (hp : h.Proper) {types : Interner} (hle : h.types ≤ types)
    (hwf : types.WellFormed) : ({ h with types } : Hierarchy).Proper where
  toSound := hp.toSound.intern hle hwf
  bases_proper c base hbase := (hp.bases_proper c base hbase).of_le hp.wellFormed hle
  shapes_proper c shape hshape e he :=
    (hp.shapes_proper c shape hshape e he).of_le hp.wellFormed hle

omit [Digest TypeData] in
theorem sameHeaders_withBase (h : Hierarchy) (c : ClassId) (base : Instance) :
    h.classes.SameHeaders (h.withBase c base).classes :=
  .update h.classes c fun _ => ⟨rfl, rfl⟩

/-- A new edge. -/
theorem withBase (hp : h.Proper) {base : Instance} (ha : h.Admits c base)
    (hbase : h.types.ProperInstance (h.vocabulary c) base) : (h.withBase c base).Proper where
  toSound := hp.toSound.withBase ha hbase.issued
  bases_proper := by
    intro d edge hedge
    rw [vocabulary_eq (sameHeaders_withBase h c base)]
    rcases mem_bases_withBase hedge with hold | ⟨rfl, rfl⟩
    · exact hp.bases_proper d edge hold
    · exact hbase
  shapes_proper := by
    intro d shape hshape
    rw [vocabulary_eq (sameHeaders_withBase h c base)]
    exact hp.shapes_proper d shape (shape?_withBase hshape)

theorem sameHeaders_withShape (h : Hierarchy) (c : ClassId) (elements : List (Element TypeId)) :
    h.classes.SameHeaders (h.withShape c elements).classes := by
  have hupdate := Registry.SameHeaders.update h.classes c (f := fun info =>
    { info with
      shape := some { elements }
      flags := { info.flags with tupleShaped := true } }) fun _ => ⟨rfl, rfl⟩
  exact hupdate.trans (.markRecursion _ h.types)

/-- A new shape. -/
theorem withShape (hp : h.Proper) {elements : List (Element TypeId)}
    (helements : ∀ e ∈ elements, h.types.Proper (h.vocabulary c) e.item) :
    (h.withShape c elements).Proper where
  toSound := hp.toSound.withShape c fun e he => (helements e he).issued
  bases_proper := by
    intro d edge hedge
    rw [vocabulary_eq (sameHeaders_withShape h c elements)]
    rw [bases_withShape] at hedge
    exact hp.bases_proper d edge hedge
  shapes_proper := by
    intro d shape hshape e he
    rw [vocabulary_eq (sameHeaders_withShape h c elements)]
    rcases shape?_withShape hshape with ⟨rfl, heq⟩ | ⟨old, hold, heq⟩
    · exact helements e (heq ▸ he)
    · exact hp.shapes_proper d old hold e (heq ▸ he)

end Proper

/-- The tuple class over the union of items of the vocabulary. -/
theorem conforms_tupleFallback {t : Interner} (hwf : t.WellFormed) {V : Vocabulary}
    (hleaf : V.leaf .never) {tuple : ClassId} (htakes : V.takes tuple 1)
    {elements : List (Element TypeId)} (helements : ∀ e ∈ elements, Conforms V e.item t) :
    Repeatable t (tupleFallback tuple elements) fun i t' =>
      i.head = tuple ∧ ConformsInstance V i t' := by
  have hitems : ∀ id ∈ elements.map Element.item, Conforms V id t := by
    rintro id hid
    obtain ⟨e, he, rfl⟩ := List.mem_map.mp hid
    exact helements e he
  refine (conforms_union hwf hitems fun _ => hleaf).bind ?_
  intro id t' _ hwf' _ hid
  have hargs : ∀ a ∈ [id], Conforms V a t' := by simpa using hid
  refine (conforms_apply hwf' htakes hargs).mono ?_
  rintro i t'' _ _ _ ⟨hhead, -, hi⟩
  exact ⟨hhead, hi⟩

end Hierarchy

end Supertypes
