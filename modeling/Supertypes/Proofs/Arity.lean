import Supertypes.Proofs.OneAnswer

/-!
# As many arguments as parameters

- `Hierarchy.Sound.fits_supertype`: the one answer has an argument for each parameter, whichever
  way it comes.
- `Hierarchy.Reachable.results_fit`: the one answer and all answers do, on paths of any length.
-/

namespace Supertypes.Hierarchy

open Interner

variable {h : Hierarchy} {limit : Option Nat} {t : Interner} {i : Instance} {c target : ClassId}

/-- The class without arguments, if it has no parameters. -/
theorem fits_bare (hnullary : (h.classes.params target).isEmpty = true) :
    h.Fits target (.bare target) t := by
  refine ⟨rfl, Nat.zero_le _, ?_⟩
  rw [List.isEmpty_iff.mp hnullary]
  rfl

section

variable [Digest TypeData]

namespace Sound

variable (hs : h.Sound) (hle : h.types ≤ t) (hwf : t.WellFormed)

include hs hle hwf

/-- A property of what the shapes come to is one of what the shape of a class comes to. -/
theorem repeatable_viaShape {P : Instance → Interner → Prop} (hi : t.IssuedList i.args)
    (hexpanded : ∀ shape, h.classes.shape? i.head = some shape → ∀ r t', t ≤ t' → t'.WellFormed →
      h.Fits .tuple r t' → Settled t' (do
        let elements ← ((h.mapperUpTo limit).environment t i).applyElements shape.elements
        tupleFallback .tuple elements) r → P r t') :
    Repeatable t ((h.mapperUpTo limit).viaShape i) fun mapped t' => ∀ r ∈ mapped, P r t' := by
  refine Mapper.repeatable_viaShape hwf hi ?_ fun shape hshape => ?_
  · exact fun shape hshape e he => (hs.shapes_issued i.head shape hshape e he).of_le hle
  · refine (hs.fits_expandedShape hle hwf (h.mapperUpTo limit) hshape).mono ?_
    exact fun r t' hle' hwf' hsettled hfits => hexpanded shape hshape r t' hle' hwf' hfits hsettled

/-- The one answer, whichever way it comes. -/
theorem fits_supertype (limit : Option Nat) (target : ClassId) (hi : h.Fits c i t) :
    Repeatable t ((h.mapperUpTo limit).supertype i target) (h.Fits target) := by
  obtain rfl := hi.1
  refine (hs.keeps_fits limit target).supertype hle hwf hi (fun hnullary _ => fits_bare hnullary) ?_
  rintro rfl
  exact hs.repeatable_viaShape hle hwf hi.2.1 fun _ _ _ _ _ _ hfits _ => hfits

end Sound

/-- In a reachable hierarchy an instance with an argument for each parameter of its class is seen
as any class by instances of that class with an argument for each parameter of it, whatever the
length of the paths. There is one such instance at least. -/
theorem Reachable.results_fit (hr : Reachable h) (hi : h.Fits c i h.types) (limit : Option Nat)
    (target : ClassId) :
    let one := ((h.mapperUpTo limit).supertype i target).run h.types
    let all := ((h.mapperUpTo limit).all i target).run h.types
    h.Fits target one.1 one.2 ∧ all.1 ≠ [] ∧ ∀ r ∈ all.1, h.Fits target r all.2 := by
  have hs := hr.sound
  obtain rfl := hi.1
  exact ⟨(hs.fits_supertype h.types.le_refl hs.wellFormed limit target hi).post,
    ((hs.keeps_fits limit target).all h.types.le_refl hs.wellFormed hi).post⟩

end

theorem box_results_fit :
    box.Fits ⟨3⟩ ⟨⟨3⟩, ⟨1⟩⟩ box.types ∧
      let one := ((box.mapperUpTo (some 1)).supertype ⟨⟨3⟩, ⟨1⟩⟩ .tuple).run box.types
      let all := ((box.mapperUpTo (some 1)).all ⟨⟨3⟩, ⟨1⟩⟩ .tuple).run box.types
      box.Fits .tuple one.1 one.2 ∧ all.1 ≠ [] ∧ ∀ r ∈ all.1, box.Fits .tuple r all.2 :=
  have hi : box.Fits ⟨3⟩ ⟨⟨3⟩, ⟨1⟩⟩ box.types := ⟨rfl, Nat.le_refl 1, by decide +kernel⟩
  ⟨hi, reachable_box.results_fit hi (some 1) .tuple⟩

end Supertypes.Hierarchy
