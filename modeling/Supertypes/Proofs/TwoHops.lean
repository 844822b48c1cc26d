import Supertypes.Proofs.Arity
import Supertypes.Proofs.Results

/-!
# Two hops and one

- `ClassView.OnlyWay`: there is one way only from a class to another. By
  `ClassView.OnlyWay.split` its two parts at a class on it are the only ways, too.
- `Hierarchy.Sound.eq_of_finds_supertype`: along the only way, the one answer is what going up
  comes to, be that the instance itself, the class without arguments or what its edges make of
  it.
- `Hierarchy.Reachable.two_hops`: seeing an instance first as a class on the only way, and what
  that comes to as the class at its end, is seeing it as that class.
-/

namespace Supertypes

/-! ## The only way -/

namespace ClassView

variable {view : ClassView} {target via c : ClassId} {p q : List BaseEdge}

/-- A way of two parts goes by the class that the parts meet at. -/
theorem way_append :
    view.Way target c (p ++ q) ↔ ∃ via, view.Way via c p ∧ view.Way target via q := by
  induction p generalizing c with
  | nil => exact ⟨fun hq => ⟨c, rfl, hq⟩, fun ⟨_, hc, hq⟩ => (show c = _ from hc) ▸ hq⟩
  | cons e p ih =>
    constructor
    · rintro ⟨he, hway⟩
      obtain ⟨via, hp, hq⟩ := ih.mp hway
      exact ⟨via, ⟨he, hp⟩, hq⟩
    · rintro ⟨via, ⟨he, hp⟩, hq⟩
      exact ⟨he, ih.mpr ⟨via, hp, hq⟩⟩

/-- A way can be split at each class on it. -/
theorem Way.split (hp : view.Way target c p) (hvia : via ∈ c :: BaseEdge.classes p) :
    ∃ first rest, p = first ++ rest ∧ view.Way via c first ∧ view.Way target via rest := by
  induction p generalizing c with
  | nil =>
    obtain rfl : via = c := List.mem_singleton.mp hvia
    exact ⟨[], [], rfl, rfl, hp⟩
  | cons e p ih =>
    rcases List.mem_cons.mp hvia with rfl | hvia
    · exact ⟨[], e :: p, rfl, rfl, hp⟩
    · obtain ⟨he, hp⟩ := hp
      obtain ⟨first, rest, rfl, hfirst, hrest⟩ := ih hp hvia
      exact ⟨e :: first, rest, rfl, ⟨he, hfirst⟩, hrest⟩

/-- One way leads from a class to `target`, and no other. -/
def OnlyWay (view : ClassView) (target c : ClassId) (p : List BaseEdge) : Prop :=
  ∀ q, view.Way target c q ↔ q = p

theorem OnlyWay.way (honly : view.OnlyWay target c p) : view.Way target c p :=
  (honly p).mpr rfl

/-- Without cycles the only path to a class is the only way there. -/
theorem onlyWay_of_edgePath (hview : view.Acyclic)
    (honly : ∀ q, view.EdgePath target c q ↔ q = p) : view.OnlyWay target c p := by
  have hne := ((honly p).mpr rfl).start_ne hview
  intro q
  rw [← honly, edgePath_iff_way]
  refine ⟨fun hq => ⟨?_, hq⟩, And.right⟩
  rintro rfl
  exact hne hq

/-- What leads to a class on the only way, and from there on, are the only ways themselves: with
another one there would be another way all along. -/
theorem OnlyWay.split (honly : view.OnlyWay target c p) (hvia : via ∈ c :: BaseEdge.classes p) :
    ∃ first rest, p = first ++ rest ∧ view.OnlyWay via c first ∧ view.OnlyWay target via rest := by
  obtain ⟨first, rest, rfl, hfirst, hrest⟩ := honly.way.split hvia
  refine ⟨first, rest, rfl, fun q => ⟨fun hq => ?_, ?_⟩, fun q => ⟨fun hq => ?_, ?_⟩⟩
  · exact List.append_cancel_right ((honly _).mp (way_append.mpr ⟨via, hq, hrest⟩))
  · rintro rfl
    exact hfirst
  · exact List.append_cancel_left ((honly _).mp (way_append.mpr ⟨via, hfirst, hq⟩))
  · rintro rfl
    exact hrest

end ClassView

/-! ## Hops -/

namespace Mapper

open Interner

variable [Digest TypeData]

/-- Seen first as `via`, and what that comes to as `target`. -/
def inTwoHops (m : Mapper) (i : Instance) (via target : ClassId) : Interning Instance := do
  m.supertype (← m.supertype i via) target

theorem compose_append (m : Mapper) (i : Instance) (p q : List BaseEdge) :
    m.compose i (p ++ q) = m.compose i p >>= fun reached => m.compose reached q := by
  unfold compose
  rw [List.foldlM_append]

end Mapper

namespace Hierarchy

open Interner

section

variable [Digest TypeData]

variable {h : Hierarchy} {t : Interner} {i one two r : Instance} {c via target : ClassId}
  {p : List BaseEdge}

namespace Sound

variable (hs : h.Sound) (hle : h.types ≤ t) (hwf : t.WellFormed)

include hs hle hwf

/-- The one answer by base edges, where one path leads to the class. -/
theorem eq_of_finds_viaEdges (hi : h.Fits c i t)
    (honly : ∀ q, h.mapper.view.EdgePath target c q ↔ q = p)
    (hone : t.Finds (h.mapper.viaEdges i target) one) (hr : t.Finds (h.mapper.compose i p) r) :
    one = r := by
  have hpath := (honly p).mpr rfl
  unfold Mapper.viaEdges at hone
  split at hone
  · -- both are the class without arguments
    rename_i hnullary
    have hfits := hr.post ((hs.keeps_fits none target).compose hle hwf hi
      (ClassView.edgePath_iff_way.mp hpath).2)
    rw [hone.of_pure, hfits.eq_bare hwf hnullary]
  · obtain rfl := hi.1
    obtain ⟨rs, hrs, hone⟩ := @Finds.of_bind _ _ _ _ _ _ inferInstance
      (fun rs => by split <;> infer_instance) hone
    obtain ⟨r', rfl, hcomposes⟩ := hrs.post (Mapper.repeatable_supertypes_of_only rfl
      hs.acyclic_view hwf hi.2.1 (fun c base hbase => (hs.bases_issued c base hbase).of_le hle)
      honly)
    rw [hone.of_pure]
    exact (hcomposes.1.finds hwf).unique hr

/-- Along the only way to a class, `tuple` apart, the one answer is what going up comes to. -/
theorem eq_of_finds_supertype (hi : h.Fits c i t) (honly : h.mapper.view.OnlyWay target c p)
    (htuple : target ≠ .tuple) (hone : t.Finds (h.mapper.supertype i target) one)
    (hr : t.Finds (h.mapper.compose i p) r) : one = r := by
  rw [Mapper.supertype_eq] at hone
  split at hone
  · -- there is no edge on the way to the own class
    rename_i hhead
    obtain rfl : [] = p := (honly []).mp (hi.1.symm.trans hhead)
    rw [hone.of_pure, hr.of_pure]
  · rename_i hhead
    rw [if_neg (show ¬ target = h.mapper.view.tuple from htuple)] at hone
    have hne : c ≠ target := hi.1 ▸ hhead
    refine hs.eq_of_finds_viaEdges hle hwf hi (fun q => ?_) hone hr
    rw [← honly q, ClassView.edgePath_iff_way]
    refine ⟨And.right, fun hq => ⟨?_, hq⟩⟩
    rintro rfl
    exact hne hq

/-- Two hops along the only way come to what going up comes to. -/
theorem eq_of_finds_inTwoHops (hi : h.Fits c i t) (honly : h.mapper.view.OnlyWay target c p)
    (hvia : via ∈ c :: BaseEdge.classes p) (hvia_tuple : via ≠ .tuple) (htuple : target ≠ .tuple)
    (htwo : t.Finds (h.mapper.inTwoHops i via target) two)
    (hr : t.Finds (h.mapper.compose i p) r) : two = r := by
  obtain ⟨first, rest, rfl, hfirst, hrest⟩ := honly.split hvia
  rw [Mapper.compose_append] at hr
  obtain ⟨reached, hreached, hr⟩ := hr.of_bind
  obtain ⟨j, hj, htwo⟩ := htwo.of_bind
  -- the first hop goes up the first part, and the second one the rest
  obtain rfl := hs.eq_of_finds_supertype hle hwf hi hfirst hvia_tuple hj hreached
  have hfits := hj.post (hs.fits_supertype hle hwf none via hi)
  exact hs.eq_of_finds_supertype hle hwf hfits hrest htuple htwo hr

theorem repeatable_inTwoHops (hi : h.Fits c i t) (via target : ClassId) :
    Repeatable t (h.mapper.inTwoHops i via target) (h.Fits target) :=
  (hs.fits_supertype hle hwf none _ hi).bind fun _ _ hle' hwf' _ hj =>
    hs.fits_supertype (Interner.le_trans hle hle') hwf' none _ hj

/-- Two hops along the only way come to what one hop comes to. -/
theorem eq_of_settled (hi : h.Fits c i t) (honly : h.mapper.view.OnlyWay target c p)
    (hvia : via ∈ c :: BaseEdge.classes p) (hvia_tuple : via ≠ .tuple) (htuple : target ≠ .tuple)
    (htwo : Settled t (h.mapper.inTwoHops i via target) two)
    (hone : Settled t (h.mapper.supertype i target) one) : two = one := by
  -- what going up comes to may have to be interned first
  have hk := hs.keeps_fits none target
  have hgo := hk.compose hle hwf hi honly.way
  have hle' := Interner.le_trans hle hgo.le
  have hi' := hk.lasting c i t _ hwf hgo.le hi
  have hr := hgo.settled.finds hgo.wellFormed
  rw [hs.eq_of_finds_inTwoHops hle' hgo.wellFormed hi' honly hvia hvia_tuple htuple
      ((htwo.of_le hgo.le).finds hgo.wellFormed) hr,
    hs.eq_of_finds_supertype hle' hgo.wellFormed hi' honly htuple
      ((hone.of_le hgo.le).finds hgo.wellFormed) hr]

end Sound

/-- In a reachable hierarchy, where one path of base edges leads from the class of an instance to
`target`: seeing the instance as a class on that path, and what this comes to as `target`, is
seeing it as `target`, whichever is done first. This is so for classes other than `tuple`. -/
theorem Reachable.two_hops (hr : Reachable h) (hi : h.Fits c i h.types)
    (honly : ∀ q, h.mapper.view.EdgePath target c q ↔ q = p)
    (hvia : via ∈ c :: BaseEdge.classes p) (hvia_tuple : via ≠ .tuple) (htuple : target ≠ .tuple) :
    let two := (h.mapper.inTwoHops i via target).run h.types
    let one := (h.mapper.supertype i target).run h.types
    ((h.mapper.supertype i target).run two.2).1 = two.1 ∧
      ((h.mapper.inTwoHops i via target).run one.2).1 = one.1 := by
  intro two one
  have hs := hr.sound
  have hwf := hs.wellFormed
  have hway := ClassView.onlyWay_of_edgePath hs.acyclic_view honly
  have hlasting := (hs.keeps_fits none target).lasting c
  constructor
  · have htwo := hs.repeatable_inTwoHops h.types.le_refl hwf hi via target
    have hi' := hlasting i _ _ hwf htwo.le hi
    have hone := hs.fits_supertype htwo.le htwo.wellFormed none target hi'
    exact (hs.eq_of_settled (Interner.le_trans htwo.le hone.le) hone.wellFormed
      (hlasting i _ _ htwo.wellFormed hone.le hi') hway hvia hvia_tuple htuple
      (htwo.settled.of_le hone.le) hone.settled).symm
  · have hone := hs.fits_supertype h.types.le_refl hwf none target hi
    have hi' := hlasting i _ _ hwf hone.le hi
    have htwo := hs.repeatable_inTwoHops hone.le hone.wellFormed hi' via target
    exact hs.eq_of_settled (Interner.le_trans hone.le htwo.le) htwo.wellFormed
      (hlasting i _ _ hone.wellFormed htwo.le hi') hway hvia hvia_tuple htuple
      htwo.settled (hone.settled.of_le htwo.le)

end

/-- The class `Crate[U]` over `Box[U]`, and the class `Pallet` over `Crate[Never]`. -/
def pallet : Hierarchy :=
  let types := ((Interner.param ⟨⟨3⟩, "U"⟩).run box.types).2
  let types := ((internTypes [⟨46⟩]).run types).2
  let types := ((internTypes [.never]).run types).2
  let h := ((Hierarchy.register "Crate" [⟨⟨3⟩, "U"⟩] {}).run.run { box with types }).2
  let h := ((Hierarchy.register "Pallet" [] {}).run.run h).2
  let h := ((Hierarchy.addBase ⟨4⟩ ⟨⟨3⟩, ⟨2⟩⟩).run.run h).2
  ((Hierarchy.addBase ⟨5⟩ ⟨⟨4⟩, ⟨3⟩⟩).run.run h).2

theorem reachable_pallet : Reachable pallet := by
  refine .next (.next (.next (.next (.next (.next (.next reachable_box
    (.intern _ (.data (.param ⟨⟨3⟩, "U"⟩) trivial))) (.intern _ (.types [⟨46⟩] ?_)))
    (.intern _ (.types [.never] ?_))) (.register "Crate" [⟨⟨3⟩, "U"⟩] {}))
    (.register "Pallet" [] {})) (.addBase ⟨4⟩ ⟨⟨3⟩, ⟨2⟩⟩ ?_)) (.addBase ⟨5⟩ ⟨⟨4⟩, ⟨3⟩⟩ ?_)
  · intro id hid
    rw [List.mem_singleton.mp hid]
    exact .inr (by decide +kernel)
  · intro id hid
    rw [List.mem_singleton.mp hid]
    exact issued_never
  · show 2 ≤ _
    decide +kernel
  · show 3 ≤ _
    decide +kernel

/-- The one path from `Pallet` to `Box`. -/
def palletPath : List BaseEdge :=
  [⟨⟨⟨4⟩, ⟨3⟩⟩, 0⟩, ⟨⟨⟨3⟩, ⟨2⟩⟩, 0⟩]

/-- As a crate and then as a box, or as a box at once: `Pallet` is `Box[Never]`. -/
theorem pallet_two_hops :
    let two := (pallet.mapper.inTwoHops (.bare ⟨5⟩) ⟨4⟩ ⟨3⟩).run pallet.types
    let one := (pallet.mapper.supertype (.bare ⟨5⟩) ⟨3⟩).run pallet.types
    (∀ q, pallet.mapper.view.EdgePath ⟨3⟩ ⟨5⟩ q ↔ q = palletPath) ∧
      two.2.args two.1 = [.never] ∧
      ((pallet.mapper.supertype (.bare ⟨5⟩) ⟨3⟩).run two.2).1 = two.1 ∧
        ((pallet.mapper.inTwoHops (.bare ⟨5⟩) ⟨4⟩ ⟨3⟩).run one.2).1 = one.1 := by
  have hfits : pallet.Fits ⟨5⟩ (.bare ⟨5⟩) pallet.types := fits_bare (by decide +kernel)
  have honly : ∀ q, pallet.mapper.view.EdgePath ⟨3⟩ ⟨5⟩ q ↔ q = palletPath := by
    have hpaths : pallet.mapper.view.edgePaths ⟨5⟩ ⟨3⟩ = [palletPath] := by decide +kernel
    intro q
    rw [← ClassView.mem_edgePaths_iff reachable_pallet.sound.acyclic_view, hpaths,
      List.mem_singleton]
  exact ⟨honly, by decide +kernel,
    reachable_pallet.two_hops hfits honly (by decide) (by decide) (by decide)⟩

end Hierarchy

end Supertypes
