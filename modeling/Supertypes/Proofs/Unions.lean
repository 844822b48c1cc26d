import Supertypes.Proofs.HashConsing

/-!
# Unions of unions

A union depends on what its members contribute, and not on how they have been joined before.

- `Vocabulary.anything`: all types with unions in normal form.
- `Interner.Unites`: what joining types comes to. `Interner.Unites.unique` says that it is one
  type, `Interner.Finds.unites` that it is what the action answers.
- `Interner.Unites.congr`: it depends on what is contributed. `Interner.Unites.flatMap`: joining
  unions is joining all their members.
-/

namespace Supertypes

/-- No restriction. -/
def Vocabulary.anything : Vocabulary where
  leaf _ := True
  param _ := True
  takes _ _ := True

variable [Digest TypeData]

namespace Interner

variable {t t' : Interner} {x y : TypeId} {V : Vocabulary} {members : List TypeId}

/-! ## Members -/

theorem spans_anything (t : Interner) : Spans .anything t :=
  spans_of_leaf (fun _ => trivial) t

/-- A type contributes itself, or it is a union in normal form. -/
theorem Proper.membersOf_cases (h : t.Proper V x) :
    (∀ list, t.lookup x ≠ some (.union list)) ∧ t.membersOf x = [x] ∨
      ∃ list, t.lookup x = some (.union list) ∧ t.membersOf x = t.typeList list ∧
        t.NormalMembers (t.typeList list) := by
  rcases t.membersOf_eq_or x with ⟨list, hdata, hlist⟩ | hself
  · exact .inr ⟨list, hdata, hlist, h.normal_of_union hdata⟩
  · exact .inl hself

/-- An `Any` is contributed by itself only. -/
theorem Proper.eq_of_mem_membersOf (h : t.Proper V x) (hy : y ∈ t.membersOf x)
    (hany : y.isAny = true) : y = x := by
  rcases h.membersOf_cases with ⟨-, hself⟩ | ⟨list, -, hlist, hnormal⟩
  · rw [hself] at hy
    exact List.mem_singleton.mp hy
  · rw [hlist] at hy
    rw [hnormal.not_any y hy] at hany
    cases hany

/-- Types that contribute the same, `Never` aside, are the same. -/
theorem Proper.eq_of_membersOf (hwf : t.WellFormed) (hx : t.Proper V x) (hy : t.Proper V y)
    (h : ∀ m, m ≠ .never → (m ∈ t.membersOf x ↔ m ∈ t.membersOf y)) : x = y := by
  -- a single type does not contribute what a union does
  have hmixed : ∀ {x y : TypeId} {list : TypeListId}, t.NormalMembers (t.typeList list) →
      (∀ m, m ≠ .never → (m ∈ [x] ↔ m ∈ t.typeList list)) → x = y := by
    intro x y list hnormal h
    have hall : ∀ m ∈ t.typeList list, m = x := fun m hm =>
      List.mem_singleton.mp ((h m (hnormal.not_never m hm)).mpr hm)
    have htwo := hnormal.two_le
    have hnodup := nodup_of_ascend hnormal.ascend
    rw [List.eq_replicate_of_mem hall] at hnodup
    have hone := List.nodup_replicate.mp hnodup
    omega
  rcases hx.membersOf_cases with ⟨-, hself⟩ | ⟨list, hdata, hlist, hnormal⟩
  · rcases hy.membersOf_cases with ⟨-, hself'⟩ | ⟨list', -, hlist', hnormal'⟩
    · rw [hself, hself'] at h
      by_cases hnever : x = .never
      · by_contra hne
        have hself : y ∈ [x] := (h y (fun heq => hne (hnever.trans heq.symm))).mpr
          (List.mem_singleton_self y)
        exact hne (List.mem_singleton.mp hself).symm
      · exact List.mem_singleton.mp ((h x hnever).mp (List.mem_singleton_self x))
    · rw [hself, hlist'] at h
      exact hmixed hnormal' h
  · rcases hy.membersOf_cases with ⟨-, hself'⟩ | ⟨list', hdata', hlist', hnormal'⟩
    · rw [hlist, hself'] at h
      exact (hmixed hnormal fun m hm => (h m hm).symm).symm
    · rw [hlist, hlist'] at h
      have heq : t.typeList list = t.typeList list' := by
        refine eq_of_ascend hnormal.ascend hnormal'.ascend fun m => ⟨fun hm => ?_, fun hm => ?_⟩
        · exact (h m (hnormal.not_never m hm)).mp hm
        · exact (h m (hnormal'.not_never m hm)).mpr hm
      obtain rfl := hwf.typeList_inj (hwf.issuedData_of_lookup hdata)
        (hwf.issuedData_of_lookup hdata') heq
      exact hwf.lookup_inj (by simp) (by simp) hdata hdata'

/-! ## What is contributed -/

theorem contributes_singleton : t.Contributes [x] y ↔ y ∈ t.membersOf x := by
  unfold Contributes
  simp

theorem contributes_flatMap {α : Type} {xs : List α} {f : α → List TypeId} :
    t.Contributes (xs.flatMap f) y ↔ ∃ x ∈ xs, t.Contributes (f x) y := by
  unfold Contributes
  constructor
  · rintro ⟨m, hm, hy⟩
    obtain ⟨x, hx, hm⟩ := List.mem_flatMap.mp hm
    exact ⟨x, hx, m, hm, hy⟩
  · rintro ⟨x, hx, m, hm, hy⟩
    exact ⟨m, List.mem_flatMap.mpr ⟨x, hx, hm⟩, hy⟩

theorem contributes_map {α : Type} {xs : List α} {f : α → TypeId} :
    t.Contributes (xs.map f) y ↔ ∃ x ∈ xs, y ∈ t.membersOf (f x) := by
  unfold Contributes
  simp

/-! ## Joining -/

/-- Joining the types comes to `y`: to the first `Any` that they contribute, or else to the type
that contributes what they do, `Never` aside. -/
inductive Unites (t : Interner) (members : List TypeId) (y : TypeId) : Prop
  | any (hany : y.isAny = true) (hy : t.Contributes members y)
    (hfirst : ∀ x, t.Contributes members x → x.isAny = true → y.word ≤ x.word) : Unites t members y
  | parts (hnone : ∀ x, t.Contributes members x → x.isAny = false)
    (hparts : ∀ x, x ≠ .never → (x ∈ t.membersOf y ↔ t.Contributes members x)) : Unites t members y

omit [Digest TypeData] in
theorem ne_never_of_isAny (h : x.isAny = true) : x ≠ .never := by
  rintro rfl
  cases h

theorem mem_membersOf_of_isAny (h : x.isAny = true) : y ∈ t.membersOf x ↔ y = x := by
  rw [membersOf_of_intrinsic (isIntrinsic_of_isAny h), List.mem_singleton]

namespace Unites

variable {members' : List TypeId}

/-- Without an `Any` among what is contributed. -/
theorem of_not_any (h : t.Unites members y) (hy : y.isAny = false) :
    (∀ x, t.Contributes members x → x.isAny = false) ∧
      ∀ x, x ≠ .never → (x ∈ t.membersOf y ↔ t.Contributes members x) := by
  cases h with
  | any hany _ _ =>
    rw [hy] at hany
    cases hany
  | parts hnone hparts => exact ⟨hnone, hparts⟩

/-- With an `Any`, which is the first. -/
theorem of_any (h : t.Unites members y) (hy : y.isAny = true) :
    t.Contributes members y ∧ ∀ x, t.Contributes members x → x.isAny = true → y.word ≤ x.word := by
  cases h with
  | any _ hmem hfirst => exact ⟨hmem, hfirst⟩
  | parts hnone hparts =>
    have hmem := (hparts y (ne_never_of_isAny hy)).mp ((mem_membersOf_of_isAny hy).mpr rfl)
    rw [hnone y hmem] at hy
    cases hy

/-- Joining types comes to one type. -/
theorem unique (hwf : t.WellFormed) (hx : t.Proper V x) (hy : t.Proper V y)
    (h : t.Unites members x) (h' : t.Unites members y) : x = y := by
  cases h with
  | any hany hmem hfirst =>
    cases h' with
    | any hany' hmem' hfirst' =>
      exact congrArg TypeId.mk (UInt32.le_antisymm (hfirst y hmem' hany') (hfirst' x hmem hany))
    | parts hnone' _ =>
      rw [hnone' x hmem] at hany
      cases hany
  | parts hnone hparts =>
    cases h' with
    | any hany' hmem' _ =>
      rw [hnone y hmem'] at hany'
      cases hany'
    | parts _ hparts' =>
      exact hx.eq_of_membersOf hwf hy fun m hm => by rw [hparts m hm, hparts' m hm]

/-- What contributes the same, `Never` aside, joins to the same. -/
theorem congr (h : t.Unites members y)
    (hsame : ∀ x, x ≠ .never → (t.Contributes members x ↔ t.Contributes members' x)) :
    t.Unites members' y := by
  cases h with
  | any hany hmem hfirst =>
    exact .any hany ((hsame y (ne_never_of_isAny hany)).mp hmem) fun x hx hx' =>
      hfirst x ((hsame x (ne_never_of_isAny hx')).mpr hx) hx'
  | parts hnone hparts =>
    refine .parts (fun x hx => ?_) fun x hx => by rw [hparts x hx, hsame x hx]
    by_cases hnever : x = .never
    · rw [hnever]
      rfl
    · exact hnone x ((hsame x hnever).mpr hx)

/-- A type joined with nothing is itself. -/
theorem self (hy : t.Proper V y) : t.Unites [y] y := by
  cases hany : y.isAny with
  | true =>
    refine .any hany (contributes_singleton.mpr ((mem_membersOf_of_isAny hany).mpr rfl)) ?_
    intro x hx _
    rw [(mem_membersOf_of_isAny hany).mp (contributes_singleton.mp hx)]
    exact UInt32.le_refl _
  | false =>
    refine .parts (fun x hx => ?_) fun x _ => contributes_singleton.symm
    by_contra hcon
    have hself := hy.eq_of_mem_membersOf (contributes_singleton.mp hx) (by simpa using hcon)
    rw [hself, hany] at hcon
    exact hcon rfl

/-- The members of a union join to the union. -/
theorem of_union {list : TypeListId} (hdata : t.lookup y = some (.union list))
    (hnormal : t.NormalMembers (t.typeList list)) : t.Unites (t.typeList list) y := by
  have hsame : ∀ x, t.Contributes (t.typeList list) x ↔ x ∈ t.typeList list := by
    intro x
    constructor
    · rintro ⟨m, hm, hx⟩
      rw [membersOf_of_not_union (hnormal.not_union m hm)] at hx
      rwa [List.mem_singleton.mp hx]
    · intro hx
      refine ⟨x, hx, ?_⟩
      rw [membersOf_of_not_union (hnormal.not_union x hx)]
      exact List.mem_singleton_self x
  refine .parts (fun x hx => hnormal.not_any x ((hsame x).mp hx)) fun x _ => ?_
  rw [membersOf_of_union hdata, hsame]

/-- Joining unions is joining all that they have been joined from. -/
theorem flatMap {α : Type} {xs : List α} {f : α → TypeId} {g : α → List TypeId}
    (hf : ∀ x ∈ xs, t.Unites (g x) (f x)) (h : t.Unites (xs.map f) y) :
    t.Unites (xs.flatMap g) y := by
  -- an `Any` among the unions is joined like any other member
  have hself : ∀ x ∈ xs, (f x).isAny = true → t.Contributes (xs.map f) (f x) := fun x hx hany =>
    contributes_map.mpr ⟨x, hx, (mem_membersOf_of_isAny hany).mpr rfl⟩
  cases h with
  | any hany hmem hfirst =>
    refine .any hany ?_ fun m hm hm' => ?_
    · -- the `Any` comes from one of the unions, and there from what it has been joined from
      obtain ⟨x, hx, hmem⟩ := contributes_map.mp hmem
      refine contributes_flatMap.mpr ⟨x, hx, ?_⟩
      cases hfx : (f x).isAny with
      | true =>
        rw [(mem_membersOf_of_isAny hfx).mp hmem]
        exact ((hf x hx).of_any hfx).1
      | false => exact (((hf x hx).of_not_any hfx).2 y (ne_never_of_isAny hany)).mp hmem
    · -- it comes before the first of any other union
      obtain ⟨x, hx, hm⟩ := contributes_flatMap.mp hm
      cases hfx : (f x).isAny with
      | true =>
        exact UInt32.le_trans (hfirst (f x) (hself x hx hfx) hfx)
          (((hf x hx).of_any hfx).2 m hm hm')
      | false =>
        rw [((hf x hx).of_not_any hfx).1 m hm] at hm'
        cases hm'
  | parts hnone hparts =>
    -- without one, no union has become an `Any`
    have hno : ∀ x ∈ xs, (f x).isAny = false := by
      intro x hx
      by_contra hcon
      have hany : (f x).isAny = true := by simpa using hcon
      exact hcon (hnone (f x) (hself x hx hany))
    refine .parts (fun m hm => ?_) fun m hm => ?_
    · obtain ⟨x, hx, hm⟩ := contributes_flatMap.mp hm
      exact ((hf x hx).of_not_any (hno x hx)).1 m hm
    · rw [hparts m hm, contributes_map, contributes_flatMap]
      exact exists_congr fun x => and_congr_right fun hx =>
        ((hf x hx).of_not_any (hno x hx)).2 m hm

end Unites

/-- What the type stands for that is found as the union of some types. -/
theorem IsUnion.unites (hmembers : ∀ m ∈ members, t.Proper V m) (h : t.IsUnion members y) :
    t.Unites members y := by
  -- what is contributed is no union, so it contributes itself
  have hnot : ∀ x, t.Contributes members x → ∀ list, t.lookup x ≠ some (.union list) := by
    rintro x ⟨m, hm, hx⟩
    exact ((hmembers m hm).of_mem_membersOf hx).2
  cases h with
  | @any reason h hfirst =>
    refine .any (by cases reason <;> rfl) h fun x hx hany => ?_
    obtain ⟨other, rfl⟩ := exists_any_of_isAny hany
    exact hfirst other hx
  | never h =>
    refine .parts (fun x hx => ?_) fun x hx => ?_
    · rw [h x hx]
      rfl
    · rw [membersOf_of_intrinsic rfl, List.mem_singleton]
      exact ⟨fun heq => absurd heq hx, fun hx' => absurd (h x hx') hx⟩
  | single hany hnever h =>
    refine .parts (fun x hx => ?_) fun x hx => ?_
    · by_cases hx' : x = .never
      · rw [hx']
        rfl
      · rw [(h x).mp ⟨hx, hx'⟩]
        exact hany
    · rw [membersOf_of_not_union (hnot y ((h y).mpr rfl).1), List.mem_singleton, ← h x]
      exact and_iff_left hx
  | several hdata hany _ _ h =>
    refine .parts hany fun x hx => ?_
    rw [membersOf_of_union hdata, h x]
    exact and_iff_left hx

theorem Finds.unites (hwf : t.WellFormed) (hroom : t.HasRoom)
    (hmembers : ∀ m ∈ members, t.Proper V m) (h : t.Finds (Interner.union members) y) :
    t.Unites members y :=
  (h.isUnion hwf hroom).unites hmembers

/-- A union that is found is made of what its members are made of. -/
theorem Finds.proper_union (hwf : t.WellFormed) (hmembers : ∀ m ∈ members, t.Proper .anything m)
    (h : t.Finds (Interner.union members) y) : t.Proper .anything y := by
  have hconforms := (conforms_union hwf (fun m hm => (hmembers m hm).conforms)
    fun _ => trivial).post
  rw [show (Interner.union members).run t = (y, t) from h] at hconforms
  exact hconforms.2 (spans_anything t)

end Interner

end Supertypes
