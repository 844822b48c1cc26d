import Supertypes.Proofs.Composition
import Supertypes.Proofs.Guards

/-!
# Properties that mapping keeps

- `ClassView.Leads`: a path of base edges. `ClassView.leads_of_mem_paths` says that the paths
  that are listed, up to whatever length, are such paths.
- `Mapper.HandsOn`: a property of instances, class by class, that every base edge hands on.
  `Mapper.HandsOn.along` and `Mapper.HandsOn.compose`: then going up leads to instances that have
  the property that belongs to the class reached.
- `Mapper.HandsOn.all`: so do the results of mapping, unless the class asked for is out of reach,
  and there is one result at least. `Mapper.supertype_eq` splits the way to the one answer, and
  `Mapper.HandsOn.supertype` says the same of it.
- `Mapper.Keeps`: a property that what stands for classes out of reach has, too.
-/

namespace Supertypes

/-! ## Paths -/

namespace ClassView

variable {view : ClassView} {target c : ClassId} {path : List ClassId}

/-- A path of base edges from a class to `target`, as the classes they lead to. -/
inductive Leads (view : ClassView) (target : ClassId) : ClassId → List ClassId → Prop
  | last {c : ClassId} {base : Instance} (hbase : base ∈ view.bases c)
    (htarget : base.head = target) : Leads view target c [target]
  | step {c : ClassId} {base : Instance} {path : List ClassId} (hbase : base ∈ view.bases c)
    (hpath : Leads view target base.head path) : Leads view target c (base.head :: path)

theorem leads_of_mem_pathsFrom {length : Nat} (h : path ∈ view.pathsFrom target length c) :
    view.Leads target c path := by
  induction length generalizing c path with
  | zero => exact absurd h List.not_mem_nil
  | succ length ih =>
    unfold pathsFrom at h
    obtain ⟨base, hbase, hpath⟩ := List.mem_flatMap.mp h
    split at hpath
    · rename_i htarget
      rw [List.mem_singleton.mp hpath]
      exact .last hbase htarget
    · obtain ⟨tail, htail, rfl⟩ := List.mem_map.mp hpath
      exact .step hbase (ih htail)

/-- Whatever the state of a walk over a list, the results come from some entry in some state. -/
theorem mem_mapM_state {σ α β : Type} {f : α → StateM σ β} {xs : List α} {s : σ} {b : β}
    (h : b ∈ ((xs.mapM f).run s).1) : ∃ a ∈ xs, ∃ s', ((f a).run s').1 = b := by
  induction xs generalizing s with
  | nil => exact absurd h List.not_mem_nil
  | cons a xs ih =>
    rw [List.mapM_cons] at h
    rcases List.mem_cons.mp (show b ∈ ((f a).run s).1 :: ((xs.mapM f).run ((f a).run s).2).1 from h)
      with rfl | h
    · exact ⟨a, List.mem_cons_self, s, rfl⟩
    · obtain ⟨a', ha', hb⟩ := ih h
      exact ⟨a', List.mem_cons_of_mem a ha', hb⟩

theorem leads_of_mem_guardedPaths {length : Nat} {g : Guard ClassId}
    (h : path ∈ ((view.guardedPaths target length c).run g).1) : view.Leads target c path := by
  induction length generalizing c path g with
  | zero => exact absurd h List.not_mem_nil
  | succ length ih =>
    unfold guardedPaths at h
    obtain ⟨found, hfound, hpath⟩ := List.mem_flatten.mp h
    obtain ⟨base, hbase, g', heq⟩ := mem_mapM_state hfound
    subst heq
    split at hpath
    · rename_i htarget
      rw [List.mem_singleton.mp hpath]
      exact .last hbase htarget
    · rw [StateT.run_bind, Guard.run_scope] at hpath
      split at hpath
      · obtain ⟨tail, htail, rfl⟩ := List.mem_map.mp hpath
        exact .step hbase (ih htail)
      · exact absurd hpath List.not_mem_nil

theorem leads_of_mem_paths {limit : Option Nat} (h : path ∈ view.paths limit c target) :
    view.Leads target c path := by
  cases limit with
  | none => exact leads_of_mem_pathsFrom h
  | some limit => exact leads_of_mem_guardedPaths h

/-- The first classes of a path, and an edge from there to the next. -/
theorem Leads.split {front rest : List ClassId} {d : ClassId}
    (h : view.Leads target c (front ++ d :: rest)) :
    (front = [] ∧ ∃ base ∈ view.bases c, base.head = d) ∨
      ∃ c', view.Leads c' c front ∧ ∃ base ∈ view.bases c', base.head = d := by
  induction front generalizing c with
  | nil =>
    refine .inl ⟨rfl, ?_⟩
    cases h with
    | last hbase htarget => exact ⟨_, hbase, htarget⟩
    | step hbase _ => exact ⟨_, hbase, rfl⟩
  | cons a front ih =>
    generalize hpath : a :: front ++ d :: rest = path at h
    cases h with
    | last hbase htarget => simp at hpath
    | step hbase h =>
      obtain ⟨rfl, rfl⟩ := List.cons.inj hpath
      rcases ih h with ⟨rfl, hnext⟩ | ⟨c', hfront, hnext⟩
      · exact .inr ⟨_, .last hbase rfl, hnext⟩
      · exact .inr ⟨c', .step hbase hfront, hnext⟩

end ClassView

variable [Digest TypeData]

namespace Mapper

open Interner

/-- Up the edges to a class from all instances that have been reached. -/
def onward (m : Mapper) (reached : List Instance) (target : ClassId) :
    Interning (List Instance) := do
  return (← reached.mapM (m.direct · target)).flatten

theorem along_eq (m : Mapper) (i : Instance) (path : List ClassId) :
    m.along i path = path.foldlM m.onward [i] :=
  rfl

/-- There are instances, and all of them have the property. -/
def AllOf (P : Instance → Interner → Prop) (rs : List Instance) (t : Interner) : Prop :=
  rs ≠ [] ∧ ∀ r ∈ rs, P r t

omit [Digest TypeData] in
theorem allOf_singleton {P : Instance → Interner → Prop} {r : Instance} {t : Interner}
    (hr : P r t) : AllOf P [r] t :=
  ⟨List.cons_ne_nil r [], fun r' hr' => by rwa [List.mem_singleton.mp hr']⟩

omit [Digest TypeData] in
/-- Lists in step with entries of a list: if there are entries, there are instances in all. -/
theorem allOf_flatten {α : Type} {P : Instance → Interner → Prop} {xs : List α}
    {rss : List (List Instance)} {t : Interner} (hne : xs ≠ [])
    (h : List.Forall₂ (fun _ rs => AllOf P rs t) xs rss) : AllOf P rss.flatten t := by
  constructor
  · obtain ⟨x, hx⟩ := List.exists_mem_of_ne_nil xs hne
    obtain ⟨rs, hrs, hrsne, -⟩ := exists_of_mem_left h hx
    obtain ⟨r, hr⟩ := List.exists_mem_of_ne_nil rs hrsne
    exact List.ne_nil_of_mem (List.mem_flatten.mpr ⟨rs, hrs, hr⟩)
  · intro r hr
    obtain ⟨rs, hrs, hr⟩ := List.mem_flatten.mp hr
    obtain ⟨_, -, -, hall⟩ := exists_of_mem_right h hrs
    exact hall r hr

/-- Each base edge of a class hands the property of its instances on to the class it leads to. -/
structure HandsOn (m : Mapper) (P : ClassId → Instance → Interner → Prop) (t₀ : Interner) :
    Prop where
  lasting : ∀ c, Repeatable.Lasting (P c)
  head : ∀ {c j t}, P c j t → j.head = c
  issued : ∀ {c j t}, P c j t → t.IssuedList j.args
  climb : ∀ {c j base t t'}, t₀ ≤ t → t.WellFormed → t ≤ t' → t'.WellFormed → P c j t →
    base ∈ m.view.bases c → Repeatable t' ((m.environment t j).applyInstance base) (P base.head)

namespace HandsOn

variable {m : Mapper} {target c : ClassId} {P : ClassId → Instance → Interner → Prop}
  {t₀ t t' : Interner} {i j : Instance}

/-- A property of all results. -/
theorem lasting_all (hk : m.HandsOn P t₀) (c : ClassId) : Repeatable.Lasting (AllOf (P c)) :=
  fun _ t t' hwf hle hrs => ⟨hrs.1, fun r hr => hk.lasting c r t t' hwf hle (hrs.2 r hr)⟩

/-- Up the edges to a class that some edge leads to. -/
theorem direct (hk : m.HandsOn P t₀) (hle : t₀ ≤ t) (hwf : t.WellFormed) (hj : P c j t)
    {base : Instance} (hbase : base ∈ m.view.bases c) :
    Repeatable t (m.direct j base.head) (AllOf (P base.head)) := by
  obtain rfl := hk.head hj
  have hedge : base ∈ (m.view.bases j.head).filter (·.head = base.head) :=
    List.mem_filter.mpr ⟨hbase, by simp⟩
  unfold Mapper.direct
  split
  · rename_i hnil
    rw [hnil] at hedge
    exact absurd hedge List.not_mem_nil
  · refine .read ?_ ?_
    · intro t' hle' _
      rw [environment_eq (hk.issued hj) hle']
    · refine (Repeatable.mapM (P := fun edge => P edge.head) (fun edge => hk.lasting edge.head)
        hwf ?_).mono ?_
      · intro edge hedge t' hle' hwf'
        exact hk.climb hle hwf hle' hwf' hj (List.mem_of_mem_filter hedge)
      · intro rs t' _ _ _ hrs
        refine ⟨?_, fun r hr => ?_⟩
        · obtain ⟨r, hr, -⟩ := exists_of_mem_left hrs hedge
          exact List.ne_nil_of_mem hr
        · obtain ⟨edge, hedge, hr⟩ := exists_of_mem_right hrs hr
          have hhead : edge.head = base.head := by simpa using (List.mem_filter.mp hedge).2
          exact hhead ▸ hr

/-- From all the instances that have been reached. -/
theorem onward (hk : m.HandsOn P t₀) (hle : t₀ ≤ t) (hwf : t.WellFormed)
    {reached : List Instance} (hreached : AllOf (P c) reached t) {base : Instance}
    (hbase : base ∈ m.view.bases c) :
    Repeatable t (m.onward reached base.head) (AllOf (P base.head)) := by
  refine (Repeatable.mapM (P := fun _ => AllOf (P base.head))
    (fun _ => hk.lasting_all base.head) hwf ?_).bind ?_
  · intro j hj t' hle' hwf'
    exact hk.direct (Interner.le_trans hle hle') hwf'
      (hk.lasting c j t t' hwf hle' (hreached.2 j hj)) hbase
  · exact fun rss t' _ hwf' _ hrss => .pure hwf' (allOf_flatten hreached.1 hrss)

/-- Up a path. -/
theorem along (hk : m.HandsOn P t₀) (hle : t₀ ≤ t) (hwf : t.WellFormed)
    (hi : P i.head i t) {path : List ClassId} (hpath : m.view.Leads target i.head path) :
    Repeatable t (m.along i path) (AllOf (P target)) := by
  -- from all the instances that have been reached, up the rest of the path
  have hgen : ∀ c path, m.view.Leads target c path → ∀ reached t, t₀ ≤ t → t.WellFormed →
      AllOf (P c) reached t → Repeatable t (path.foldlM m.onward reached) (AllOf (P target)) := by
    intro c path hpath
    induction hpath with
    | last hbase htarget =>
      obtain rfl := htarget
      intro reached t hle hwf hreached
      rw [List.foldlM_cons]
      refine (hk.onward hle hwf hreached hbase).bind ?_
      exact fun rs t' _ hwf' _ hrs => .pure hwf' hrs
    | step hbase _ ih =>
      intro reached t hle hwf hreached
      rw [List.foldlM_cons]
      refine (hk.onward hle hwf hreached hbase).bind ?_
      exact fun rs t' hle' hwf' _ hrs => ih rs t' (Interner.le_trans hle hle') hwf' hrs
  exact hgen i.head path hpath [i] t hle hwf (allOf_singleton hi)

/-- Within a path every instance that has been reached has an edge to the class that is next. -/
theorem exists_edge_of_along (hk : m.HandsOn P t₀) (hle : t₀ ≤ t) (hwf : t.WellFormed)
    (hi : P i.head i t) {front rest : List ClassId} {d : ClassId}
    (hpath : m.view.Leads target i.head (front ++ d :: rest)) :
    ∀ j ∈ ((m.along i front).run t).1, ∃ base ∈ m.view.bases j.head, base.head = d := by
  intro j hj
  rcases hpath.split with ⟨rfl, hnext⟩ | ⟨c', hfront, hnext⟩
  · obtain rfl := List.mem_singleton.mp (show j ∈ [i] from hj)
    exact hnext
  · obtain rfl := hk.head ((hk.along hle hwf hi hfront).post.2 j hj)
    exact hnext

/-- Up a sequence of edges. -/
theorem compose (hk : m.HandsOn P t₀) (hle : t₀ ≤ t) (hwf : t.WellFormed) (hi : P c i t)
    {p : List BaseEdge} (hp : m.view.Way target c p) :
    Repeatable t (m.compose i p) (P target) := by
  induction p generalizing c i t with
  | nil =>
    obtain rfl : c = target := hp
    exact .pure hwf hi
  | cons e p ih =>
    obtain ⟨he, hp⟩ := hp
    have hbase : e.base ∈ m.view.bases c := by
      rw [← ClassView.map_base_edges]
      exact List.mem_map_of_mem he
    unfold Mapper.compose
    rw [List.foldlM_cons]
    refine Repeatable.bind (P := P e.target) (.read ?_ ?_) ?_
    · intro t' hle' _
      rw [environment_eq (hk.issued hi) hle']
    · exact hk.climb hle hwf t.le_refl hwf hi hbase
    · exact fun j t' hle' hwf' _ hj => ih (Interner.le_trans hle hle') hwf' hj hp

/-- Along all paths. If there are none, what stands for the class has to have the property. -/
theorem supertypes (hk : m.HandsOn P t₀) (hle : t₀ ≤ t) (hwf : t.WellFormed) (hi : P i.head i t)
    (hunreached : m.view.paths m.limit i.head target = [] → ∀ t, t₀ ≤ t → t.WellFormed →
      Repeatable t (m.anyInstance target .fromError) (P target)) :
    Repeatable t (m.supertypes i target) (AllOf (P target)) := by
  unfold Mapper.supertypes
  refine (Repeatable.mapM (P := fun _ => AllOf (P target)) (fun _ => hk.lasting_all target) hwf
    ?_).bind ?_
  · intro path hpath t' hle' hwf'
    exact hk.along (Interner.le_trans hle hle') hwf' (hk.lasting i.head i t t' hwf hle' hi)
      (ClassView.leads_of_mem_paths hpath)
  · intro rss t' hle' hwf' _ hrss
    by_cases hnone : m.view.paths m.limit i.head target = []
    · rw [hnone] at hrss
      obtain rfl := List.forall₂_nil_left_iff.mp hrss
      refine (hunreached hnone t' (Interner.le_trans hle hle') hwf').bind ?_
      exact fun r t'' _ hwf'' _ hr => .pure hwf'' (allOf_singleton hr)
    · have hresults := allOf_flatten hnone hrss
      split
      · rename_i hnil
        exact absurd hnil hresults.1
      · exact .pure hwf' hresults

/-- Along all paths, or the instance itself. -/
theorem all (hk : m.HandsOn P t₀) (hle : t₀ ≤ t) (hwf : t.WellFormed) (hi : P i.head i t)
    (hunreached : m.view.paths m.limit i.head target = [] → ∀ t, t₀ ≤ t → t.WellFormed →
      Repeatable t (m.anyInstance target .fromError) (P target)) :
    Repeatable t (m.all i target) (AllOf (P target)) := by
  unfold Mapper.all
  split
  · rename_i hhead
    exact .pure hwf (allOf_singleton (hhead ▸ hi))
  · exact hk.supertypes hle hwf hi hunreached

end HandsOn

/-- The instance along base edges that a class is represented by. -/
def viaEdges (m : Mapper) (i : Instance) (target : ClassId) : Interning Instance :=
  if (m.view.params target).isEmpty then pure (.bare target)
  else do
    match ← m.supertypes i target with
    | first :: _ => return first
    | [] => m.anyInstance target .fromError

/-- The way to the one answer: by its own class, by the tuple shape, or by base edges. -/
theorem supertype_eq (m : Mapper) (i : Instance) (target : ClassId) :
    m.supertype i target =
      if i.head = target then pure i
      else if target = m.view.tuple then do
        match ← m.viaShape i with
        | some mapped => return mapped
        | none => m.viaEdges i target
      else m.viaEdges i target := by
  unfold supertype
  split
  · rfl
  · unfold viaEdges
    by_cases htuple : target = m.view.tuple
    · rw [if_pos htuple, if_pos htuple]
      refine bind_congr fun mapped => ?_
      cases mapped with
      | some mapped => rfl
      | none => rfl
    · exact (if_neg htuple).trans (if_neg htuple).symm

/-- The tuple that a shape comes to has the property, if there is one. What the shape mentions
and what is bound does not change, so that this can be repeated. -/
theorem repeatable_viaShape {m : Mapper} {t : Interner} {i : Instance}
    {P : Instance → Interner → Prop} (hwf : t.WellFormed) (hi : t.IssuedList i.args)
    (hissued : ∀ shape, m.view.shape? i.head = some shape → ∀ e ∈ shape.elements, t.Issued e.item)
    (hexpanded : ∀ shape, m.view.shape? i.head = some shape →
      Repeatable t (do
        let elements ← (m.environment t i).applyElements shape.elements
        tupleFallback m.view.tuple elements) P) :
    Repeatable t (m.viaShape i) fun mapped t' => ∀ r ∈ mapped, P r t' := by
  unfold viaShape
  refine .read ?_ ?_
  -- later tables read the shape alike, so that the same way is taken
  · intro t' hle _
    cases hshape : m.view.shape? i.head with
    | none => rfl
    | some shape =>
      have hmentions : (shape.elements.any fun e => t'.mentionsParam e.item) =
          shape.elements.any fun e => t.mentionsParam e.item := by
        rw [Bool.eq_iff_iff, List.any_eq_true, List.any_eq_true]
        refine exists_congr fun e => and_congr_right fun he => ?_
        rw [hwf.mentionsParam_eq hle (hissued shape hshape e he)]
      dsimp only
      rw [hmentions, environment_eq hi hle]
  · cases hshape : m.view.shape? i.head with
    | none => exact .pure hwf fun r hr => nomatch hr
    | some shape =>
      dsimp only
      split
      · exact .pure hwf fun r hr => nomatch hr
      · show Repeatable t (do
          let elements ← (m.environment t i).applyElements shape.elements
          let mapped ← tupleFallback m.view.tuple elements
          return some mapped) _
        -- the shape is expanded and joined
        rw [← bind_assoc]
        refine (hexpanded shape hshape).bind ?_
        intro mapped t' _ hwf' _ hmapped
        refine .pure hwf' fun r hr => ?_
        obtain rfl := Option.some.inj hr
        exact hmapped

section One

variable {m : Mapper} {target : ClassId} {P : ClassId → Instance → Interner → Prop}
  {t₀ t : Interner} {i : Instance} (hk : m.HandsOn P t₀) (hle : t₀ ≤ t) (hwf : t.WellFormed)
  (hi : P i.head i t)
  (hunreached : m.view.paths m.limit i.head target = [] → ∀ t, t₀ ≤ t → t.WellFormed →
    Repeatable t (m.anyInstance target .fromError) (P target))
  (hbare : (m.view.params target).isEmpty = true → ∀ t, P target (.bare target) t)

include hk hle hwf hi hunreached hbare

/-- The one answer by base edges. -/
theorem HandsOn.viaEdges : Repeatable t (m.viaEdges i target) (P target) := by
  unfold Mapper.viaEdges
  split
  · rename_i hnullary
    exact .pure hwf (hbare hnullary t)
  · refine (hk.supertypes hle hwf hi hunreached).bind ?_
    rintro rs t' _ hwf' _ ⟨hne, hrs⟩
    cases rs with
    | nil => exact absurd rfl hne
    | cons first rest => exact .pure hwf' (hrs first List.mem_cons_self)

/-- The one answer, where what the tuple shape comes to has the property. -/
theorem HandsOn.supertype
    (hshape : target = m.view.tuple →
      Repeatable t (m.viaShape i) fun mapped t' => ∀ r ∈ mapped, P target r t') :
    Repeatable t (m.supertype i target) (P target) := by
  rw [Mapper.supertype_eq]
  split
  · rename_i hhead
    exact .pure hwf (hhead ▸ hi)
  · split
    · rename_i htuple
      refine (hshape htuple).bind ?_
      intro mapped t' hle' hwf' _ hmapped
      cases mapped with
      | some r => exact .pure hwf' (hmapped r rfl)
      | none =>
        exact hk.viaEdges (Interner.le_trans hle hle') hwf'
          (hk.lasting i.head i t t' hwf hle' hi) hunreached hbare
    · exact hk.viaEdges hle hwf hi hunreached hbare

end One

/-! ## Classes out of reach -/

/-- Base edges hand the property on, and what stands for a class that cannot be reached has it
too. -/
structure Keeps (m : Mapper) (target : ClassId) (P : ClassId → Instance → Interner → Prop)
    (t₀ : Interner) : Prop extends m.HandsOn P t₀ where
  unreached : ∀ {t}, t₀ ≤ t → t.WellFormed →
    Repeatable t (m.anyInstance target .fromError) (P target)

namespace Keeps

variable {m : Mapper} {target : ClassId} {P : ClassId → Instance → Interner → Prop}
  {t₀ t : Interner} {i : Instance} (hk : m.Keeps target P t₀) (hle : t₀ ≤ t) (hwf : t.WellFormed)
  (hi : P i.head i t)

include hk hle hwf hi

theorem supertypes : Repeatable t (m.supertypes i target) (AllOf (P target)) :=
  hk.toHandsOn.supertypes hle hwf hi fun _ _ => hk.unreached

theorem all : Repeatable t (m.all i target) (AllOf (P target)) :=
  hk.toHandsOn.all hle hwf hi fun _ _ => hk.unreached

theorem supertype (hbare : (m.view.params target).isEmpty = true → ∀ t, P target (.bare target) t)
    (hshape : target = m.view.tuple →
      Repeatable t (m.viaShape i) fun mapped t' => ∀ r ∈ mapped, P target r t') :
    Repeatable t (m.supertype i target) (P target) :=
  hk.toHandsOn.supertype hle hwf hi (fun _ _ => hk.unreached) hbare hshape

end Keeps

end Mapper

end Supertypes
