import Supertypes.Proofs.Constructed

/-!
# The normal form of unions

- `Interner.Ingredient`: a type that is found in some types when all unions in them are opened.
- `Interner.union_run_congr`: the union depends on the ingredients. `Interner.union_run_of_any`:
  of several kinds of `Any` among them the strongest takes the place of the union.
- `Interner.Grouping`: nested unions, with `Interner.Grouping.build` to build them from the
  inside. `Interner.Grouping.unites` says that this comes to the union of all types in them.
- `Interner.Reached.union_normal_form` puts this together for the tables that calls can reach.
-/

namespace Supertypes

/-- How strong a kind of `Any` is: explicit before unannotated before error. -/
def AnyReason.rank : AnyReason → Nat
  | .explicit => 0
  | .unannotated => 1
  | .fromError => 2

theorem TypeId.word_any_le_iff {reason other : AnyReason} :
    (TypeId.any reason).word ≤ (TypeId.any other).word ↔ reason.rank ≤ other.rank := by
  cases reason <;> cases other <;> decide

namespace Interner

variable {t t' : Interner} {x y : TypeId} {ids ids' : List TypeId} {V : Vocabulary}

/-! ## Ingredients -/

section

variable [Digest TypeData]

/-- With unions opened at every depth `x` contains `y`, which is no union. -/
inductive Opens (t : Interner) : TypeId → TypeId → Prop
  | self {x : TypeId} (hx : ∀ list, t.lookup x ≠ some (.union list)) : Opens t x x
  | member {x m y : TypeId} {list : TypeListId} (hdata : t.lookup x = some (.union list))
    (hm : m ∈ t.typeList list) (h : Opens t m y) : Opens t x y

/-- The types in `ids` with all unions opened, `Never` aside. -/
def Ingredient (t : Interner) (ids : List TypeId) (x : TypeId) : Prop :=
  x ≠ .never ∧ ∃ id ∈ ids, t.Opens id x

theorem Opens.eq_of_not_union (h : t.Opens x y) (hx : ∀ list, t.lookup x ≠ some (.union list)) :
    y = x := by
  cases h with
  | self _ => rfl
  | member hdata _ _ => exact absurd hdata (hx _)

/-- Unions are opened one level deep, which is all that there is in normal form. -/
theorem Proper.opens_iff (h : t.Proper V x) : t.Opens x y ↔ y ∈ t.membersOf x := by
  rcases h.membersOf_cases with ⟨hnot, hself⟩ | ⟨list, hdata, hlist, hnormal⟩
  · rw [hself, List.mem_singleton]
    constructor
    · exact fun h => h.eq_of_not_union hnot
    · rintro rfl
      exact .self hnot
  · rw [hlist]
    constructor
    · intro h
      cases h with
      | self hnot => exact absurd hdata (hnot list)
      | member hdata' hm h =>
        cases hdata'.symm.trans hdata
        rwa [h.eq_of_not_union (hnormal.not_union _ hm)]
    · exact fun hy => .member hdata hy (.self (hnormal.not_union y hy))

theorem ingredient_iff (hids : ∀ id ∈ ids, t.Proper V id) :
    t.Ingredient ids x ↔ x ≠ .never ∧ t.Contributes ids x :=
  and_congr_right fun _ => exists_congr fun id => and_congr_right fun hid => (hids id hid).opens_iff

/-! ## One union -/

/-- The union as it is made of the first `Any`, if there is one, and else of the parts. -/
def unionOf (any? : Option TypeId) (parts : List TypeId) : Interning TypeId :=
  match any? with
  | some any => return any
  | none =>
    match parts with
    | [] => return .never
    | [single] => return single
    | members => do intern (.union (← internTypes members))

theorem union_run (t : Interner) (ids : List TypeId) :
    (union ids).run t = (unionOf ((t.flatten ids).find? TypeId.isAny) (t.parts ids)).run t :=
  rfl

/-- The union depends on what is contributed, `Never` aside. -/
theorem union_run_congr
    (h : ∀ x, x ≠ .never → (t.Contributes ids x ↔ t.Contributes ids' x)) :
    (union ids).run t = (union ids').run t := by
  -- all that is looked at are sublists in which there is no `Never`
  have hfilter : ∀ test : TypeId → Bool, test .never = false →
      (t.flatten ids).filter test = (t.flatten ids').filter test := by
    intro test htest
    refine eq_of_ascend ((t.ascend_flatten ids).filter _) ((t.ascend_flatten ids').filter _) ?_
    intro x
    rw [List.mem_filter, List.mem_filter, mem_flatten, mem_flatten]
    refine and_congr_left fun hx => h x ?_
    rintro rfl
    rw [htest] at hx
    cases hx
  have hany : (t.flatten ids).find? TypeId.isAny = (t.flatten ids').find? TypeId.isAny := by
    rw [← List.head?_filter, ← List.head?_filter, hfilter _ rfl]
  have hparts : t.parts ids = t.parts ids' := hfilter _ (by simp)
  rw [union_run, union_run, hany, hparts]

/-- The strongest `Any` takes the place of the union, and nothing is added. -/
theorem union_run_of_any {reason : AnyReason} (h : t.Contributes ids (.any reason))
    (hfirst : ∀ other, t.Contributes ids (.any other) → reason.rank ≤ other.rank) :
    (union ids).run t = (.any reason, t) := by
  have hmem : TypeId.any reason ∈ t.flatten ids := mem_flatten.mpr h
  have htest : (TypeId.any reason).isAny = true := by cases reason <;> rfl
  cases hfind : (t.flatten ids).find? TypeId.isAny with
  | none => exact absurd htest (List.find?_eq_none.mp hfind _ hmem)
  | some x =>
    obtain ⟨other, rfl⟩ := exists_any_of_isAny (List.find?_some hfind)
    have hother := hfirst other (mem_flatten.mp (List.mem_of_find?_eq_some hfind))
    have hle := le_of_find? (t.ascend_flatten ids) hfind hmem htest
    have heq : TypeId.any other = .any reason :=
      congrArg TypeId.mk (UInt32.le_antisymm hle (TypeId.word_any_le_iff.mpr hother))
    rw [union_run, hfind, heq]
    rfl

omit [Digest TypeData] in
/-- Among several kinds of `Any` there is a strongest. -/
theorem exists_strongest {P : AnyReason → Prop} (h : ∃ reason, P reason) :
    ∃ reason, P reason ∧ ∀ other, P other → reason.rank ≤ other.rank := by
  by_cases hexplicit : P .explicit
  · exact ⟨.explicit, hexplicit, fun other _ => Nat.zero_le _⟩
  · by_cases hunannotated : P .unannotated
    · refine ⟨.unannotated, hunannotated, fun other hother => ?_⟩
      cases other with
      | explicit => exact absurd hother hexplicit
      | unannotated => exact Nat.le_refl _
      | fromError => exact Nat.le_succ _
    · obtain ⟨reason, hreason⟩ := h
      refine ⟨reason, hreason, fun other hother => ?_⟩
      cases reason with
      | explicit => exact absurd hreason hexplicit
      | unannotated => exact absurd hreason hunannotated
      | fromError => cases other <;> first | exact absurd hother ‹_› | exact Nat.le_refl _

/-! ## Nested unions -/

/-- Types joined in groups, some of them joined before. -/
inductive Grouping
  | type (id : TypeId)
  | union (parts : List Grouping)

namespace Grouping

mutual

/-- The types in a group, whatever groups they stand in. -/
def types : Grouping → List TypeId
  | .type id => [id]
  | .union parts => typesAll parts

/-- The types in several groups. -/
def typesAll : List Grouping → List TypeId
  | [] => []
  | g :: rest => g.types ++ typesAll rest

end

mutual

/-- Join the types of each group before joining it with others. -/
def build : Grouping → Interning TypeId
  | .type id => pure id
  | .union parts => do Interner.union (← buildAll parts)

/-- Join the types of each group by itself. -/
def buildAll : List Grouping → Interning (List TypeId)
  | [] => return []
  | g :: rest => return (← g.build) :: (← buildAll rest)

end

omit [Digest TypeData] in
theorem typesAll_eq (gs : List Grouping) : typesAll gs = gs.flatMap types := by
  induction gs with
  | nil => rfl
  | cons g gs ih => rw [typesAll, ih, List.flatMap_cons]

theorem buildAll_eq (gs : List Grouping) : buildAll gs = gs.mapM build := by
  induction gs with
  | nil => rfl
  | cons g gs ih => rw [buildAll, ih, List.mapM_cons]

omit [Digest TypeData] in
theorem induct {P : Grouping → Prop} (type : ∀ id, P (.type id))
    (union : ∀ parts, (∀ g ∈ parts, P g) → P (.union parts)) : ∀ g, P g
  | .type id => type id
  | .union parts => union parts fun g _ => induct type union g

instance grows_build (g : Grouping) : Grows g.build := by
  induction g using induct with
  | type id => exact .pure id
  | union parts ih =>
    have := Grows.mapM_of_mem ih
    rw [build, buildAll_eq]
    infer_instance

theorem repeatable_build (hwf : t.WellFormed) {g : Grouping} (hg : ∀ id ∈ g.types, t.Issued id) :
    Repeatable t g.build fun id t' => t'.Issued id := by
  induction g using induct generalizing t with
  | type id => exact .pure hwf (hg id (List.mem_singleton_self id))
  | union parts ih =>
    rw [build, buildAll_eq]
    rw [types, typesAll_eq] at hg
    have hlasting : ∀ _ : Grouping, Repeatable.Lasting fun (id : TypeId) t => t.Issued id :=
      fun _ _ _ _ _ hle h => h.of_le hle
    refine (Repeatable.mapM hlasting hwf fun g hmem t' hle hwf' => ?_).bind
      fun ids t' _ hwf' _ hids => ?_
    · exact ih g hmem hwf' fun id hid => (hg id (List.mem_flatMap.mpr ⟨g, hmem, hid⟩)).of_le hle
    · refine (repeatable_union hwf' fun id hid => ?_).mono fun _ _ _ _ _ h => h.1
      obtain ⟨g, -, hissued⟩ := exists_of_mem_right hids hid
      exact hissued

/-- Joining in groups comes to the union of all types in them. -/
theorem unites (hwf : t.WellFormed) (hroom : t.HasRoom) {g : Grouping}
    (hg : ∀ id ∈ g.types, t.Proper .anything id) (h : t.Finds g.build x) :
    t.Proper .anything x ∧ t.Unites g.types x := by
  -- induction on the grouping, so that inner unions have been joined before
  induction g using induct generalizing x with
  | type id =>
    have hid := hg id (List.mem_singleton_self id)
    obtain rfl : x = id := Finds.of_pure h
    exact ⟨hid, .self hid⟩
  | union parts ih =>
    rw [build, buildAll_eq] at h
    rw [types, typesAll_eq] at hg ⊢
    obtain ⟨ids, hids, hx⟩ := h.of_bind
    have hparts : ∀ g ∈ parts, ∀ id ∈ g.types, t.Proper .anything id := fun g hmem id hid =>
      hg id (List.mem_flatMap.mpr ⟨g, hmem, hid⟩)
    have hbuilt : ∀ g ∈ parts, ∀ id, t.Finds g.build id → t.Proper .anything id ∧
        t.Unites g.types id := fun g hmem id hid => ih g hmem (hparts g hmem) hid
    -- each part is answered by one handle, whatever has been built before it
    obtain rfl : ids = parts.map fun g => (g.build.run t).1 := by
      have hsame : ids.map id = parts.map fun g => (g.build.run t).1 :=
        map_eq_map_of_forall₂ (hids.mapM.imp fun g id hid => (congrArg Prod.fst hid).symm)
      rwa [List.map_id] at hsame
    have hself : ∀ g ∈ parts, t.Finds g.build (g.build.run t).1 := by
      intro g hmem
      obtain ⟨id, -, hid⟩ := exists_of_mem_left hids.mapM hmem
      exact (congrArg Prod.fst hid).symm ▸ hid
    have hproper : ∀ id ∈ parts.map fun g => (g.build.run t).1, t.Proper .anything id := by
      intro id hid
      obtain ⟨g, hmem, rfl⟩ := List.mem_map.mp hid
      exact (hbuilt g hmem _ (hself g hmem)).1
    exact ⟨hx.proper_union hwf hproper,
      .flatMap (fun g hmem => (hbuilt g hmem _ (hself g hmem)).2) (hx.unites hwf hroom hproper)⟩

/-- Build one group and then another. -/
def buildBoth (g g' : Grouping) : Interning (TypeId × TypeId) := do
  let id ← g.build
  let id' ← g'.build
  return (id, id')

/-- Groups in which the same types are found are built to the same type. -/
theorem eq_of_buildBoth (hwf : t.WellFormed) (hreg : t.Regular) {g g' : Grouping}
    (hg : ∀ id ∈ g.types, t.Issued id) (hg' : ∀ id ∈ g'.types, t.Issued id)
    (hsame : ∀ x, t.Ingredient g.types x ↔ t.Ingredient g'.types x)
    (hrun : (buildBoth g g').run t = ((x, y), t')) (hroom : t'.HasRoom) : x = y := by
  have hboth : Repeatable t (buildBoth g g') fun _ _ => True := by
    refine (repeatable_build hwf hg).bind fun id t₁ hle₁ hwf₁ _ _ => ?_
    exact (repeatable_build hwf₁ fun id hid => (hg' id hid).of_le hle₁).bind
      fun id' t₂ _ hwf₂ _ _ => .pure hwf₂ trivial
  -- all is looked at in the tables at the end
  obtain ⟨hle, hwf', hsettled, -⟩ := hboth.of_run hrun
  obtain ⟨id, hid, hfinds⟩ := (hsettled.finds hwf').of_bind
  obtain ⟨id', hid', hfinds⟩ := hfinds.of_bind
  obtain ⟨rfl, rfl⟩ := Prod.mk.inj hfinds.of_pure
  have hproper : ∀ {ids : List TypeId}, (∀ id ∈ ids, t.Issued id) → ∀ id ∈ ids,
      t.Proper .anything id := fun hids id hid => hreg.proper hwf (hids id hid)
  have hlater : ∀ {ids : List TypeId}, (∀ id ∈ ids, t.Issued id) → ∀ id ∈ ids,
      t'.Proper .anything id := fun hids id hid => (hproper hids id hid).of_le hwf hle
  obtain ⟨hx, hunites⟩ := unites hwf' hroom (hlater hg) hid
  obtain ⟨hy, hunites'⟩ := unites hwf' hroom (hlater hg') hid'
  refine hunites.unique hwf' hx hy (hunites'.congr fun m hm => ?_)
  -- what is contributed stays the same
  have hback : ∀ {ids : List TypeId}, (∀ id ∈ ids, t.Issued id) →
      (t'.Contributes ids m ↔ t.Ingredient ids m) := by
    intro ids hids
    rw [ingredient_iff (hproper hids), and_iff_right hm]
    exact exists_congr fun id => and_congr_right fun hid => by
      rw [hwf.membersOf_eq (hids id hid) hle]
  rw [hback hg, hback hg', hsame]

end Grouping

/-! ## All unions -/

/-- The union of some types depends on their ingredients. However they are grouped, it is the
same, as long as no shard is full. `Never` changes nothing, and the strongest `Any` takes the
place of the union. All unions that are stored are in normal form. -/
theorem Reached.union_normal_form (ht : Reached t) :
    (∀ ids ids', (∀ id ∈ ids, t.Issued id) → (∀ id ∈ ids', t.Issued id) →
        (∀ x, t.Ingredient ids x ↔ t.Ingredient ids' x) →
        (union ids).run t = (union ids').run t) ∧
      (∀ g g' : Grouping, (∀ id ∈ g.types, t.Issued id) → (∀ id ∈ g'.types, t.Issued id) →
        (∀ x, t.Ingredient g.types x ↔ t.Ingredient g'.types x) →
        ∀ id id' t', (g.buildBoth g').run t = ((id, id'), t') → t'.HasRoom → id = id') ∧
      (∀ ids, (union (.never :: ids)).run t = (union ids).run t) ∧
      (∀ ids, (∀ id ∈ ids, t.Issued id) → (∃ reason, t.Ingredient ids (.any reason)) →
        ∃ reason, t.Ingredient ids (.any reason) ∧
          (∀ other, t.Ingredient ids (.any other) → reason.rank ≤ other.rank) ∧
          (union ids).run t = (.any reason, t)) ∧
      ∀ list, .union list ∈ t.types.entries → t.NormalMembers (t.typeList list) := by
  obtain ⟨hwf, hreg⟩ := ht.wellFormed_regular
  have hproper : ∀ {ids : List TypeId}, (∀ id ∈ ids, t.Issued id) → ∀ id ∈ ids,
      t.Proper .anything id := fun hids id hid => hreg.proper hwf (hids id hid)
  refine ⟨fun ids ids' hids hids' hsame => union_run_congr fun x hx => ?_,
    fun g g' hg hg' hsame id id' t' hrun hroom =>
      Grouping.eq_of_buildBoth hwf hreg hg hg' hsame hrun hroom,
    fun ids => union_run_congr fun x hx => ?_, fun ids hids hany => ?_, fun list hlist =>
      hreg _ hlist⟩
  -- ingredients are what is contributed, apart from `Never`
  · have hboth := hsame x
    rwa [ingredient_iff (hproper hids), ingredient_iff (hproper hids'), and_iff_right hx,
      and_iff_right hx] at hboth
  · unfold Contributes
    rw [List.exists_mem_cons_iff, membersOf_of_intrinsic rfl, List.mem_singleton, or_iff_right hx]
  · obtain ⟨reason, hreason, hfirst⟩ := exists_strongest hany
    refine ⟨reason, hreason, hfirst, union_run_of_any ?_ fun other hother => ?_⟩
    · exact ((ingredient_iff (hproper hids)).mp hreason).2
    · refine hfirst other ((ingredient_iff (hproper hids)).mpr ⟨?_, hother⟩)
      cases other <;> decide

end

/-- `(T | U) | C`. -/
def joinedFirst : Grouping :=
  .union [.union [.type ⟨42⟩, .type ⟨46⟩], .type ⟨41⟩]

/-- `C | Never | (T | U) | U`, where `T | U` is there before. -/
def joinedBefore : Grouping :=
  .union [.type ⟨41⟩, .type .never, .type ⟨32⟩, .type ⟨46⟩]

/-- The one after the other. -/
def joinedInGroups : (TypeId × TypeId) × Interner :=
  (joinedFirst.buildBoth joinedBefore).run paramsJoined

theorem paramsJoined_union_normal_form : joinedInGroups.1.1 = joinedInGroups.1.2 ∧
    joinedInGroups.2.membersOf joinedInGroups.1.1 = [⟨41⟩, ⟨42⟩, ⟨46⟩] := by
  obtain ⟨hwf, hreg⟩ := reached_paramsJoined.wellFormed_regular
  have hissued : ∀ id ∈ joinedFirst.types, paramsJoined.Issued id := by decide +kernel
  have hissued' : ∀ id ∈ joinedBefore.types, paramsJoined.Issued id := by decide +kernel
  have hsame : ∀ x, paramsJoined.Ingredient joinedFirst.types x ↔
      paramsJoined.Ingredient joinedBefore.types x := by
    intro x
    rw [ingredient_iff fun id hid => hreg.proper hwf (hissued id hid),
      ingredient_iff fun id hid => hreg.proper hwf (hissued' id hid)]
    have htypes : joinedFirst.types = [⟨42⟩, ⟨46⟩, ⟨41⟩] := rfl
    have htypes' : joinedBefore.types = [⟨41⟩, .never, ⟨32⟩, ⟨46⟩] := rfl
    have hparam : paramsJoined.membersOf ⟨42⟩ = [⟨42⟩] := by decide +kernel
    have hparam' : paramsJoined.membersOf ⟨46⟩ = [⟨46⟩] := by decide +kernel
    have hclass : paramsJoined.membersOf ⟨41⟩ = [⟨41⟩] := by decide +kernel
    have hunion : paramsJoined.membersOf ⟨32⟩ = [⟨42⟩, ⟨46⟩] := by decide +kernel
    have hnever : paramsJoined.membersOf .never = [.never] := by decide +kernel
    simp only [htypes, htypes', Contributes, List.mem_cons, List.not_mem_nil, or_false,
      exists_eq_or_imp, exists_eq_left, hparam, hparam', hclass, hunion, hnever]
    tauto
  have hroom : joinedInGroups.2.HasRoom := hasRoom_of_size (by decide +kernel)
  refine ⟨?_, by decide +kernel⟩
  exact reached_paramsJoined.union_normal_form.2.1 _ _ hissued hissued' hsame _ _ _ rfl hroom

end Interner

end Supertypes
