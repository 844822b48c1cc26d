import Supertypes.Ancestry.Mapper
import Supertypes.Proofs.EdgePaths
import Supertypes.Proofs.Expansion

/-!
# Going up paths

- `Mapper.compose`: going up a sequence of edges one by one, expanding each through the
  environment of the instance reached.
- `Mapper.repeatable_direct` and `Mapper.repeatable_along`: what going up to a class, and along a
  derivation path, comes to in terms of edges. Along a path of classes the results are those of
  all the sequences of edges that run through these classes.
- `Mapper.repeatable_supertypes`, `Mapper.repeatable_supertypes_of_only` and
  `Mapper.repeatable_supertypes_of_no_path`: what mapping to an ancestor, to one that a single
  path leads to, and to a class that is none, comes to.
-/

namespace Supertypes

variable {α β γ : Type}

/-! ## Lists in step -/

theorem forall₂_trans {R : α → β → Prop} {S : β → γ → Prop} {T : α → γ → Prop}
    (h : ∀ x y z, R x y → S y z → T x z) {xs : List α} {ys : List β} {zs : List γ}
    (hxy : List.Forall₂ R xs ys) (hyz : List.Forall₂ S ys zs) : List.Forall₂ T xs zs := by
  induction hxy generalizing zs with
  | nil =>
    cases hyz
    exact .nil
  | cons hR _ ih =>
    cases hyz with
    | cons hS hrest => exact .cons (h _ _ _ hR hS) (ih hrest)

theorem forall₂_flatMap {R : α → β → Prop} {f : γ → List α} {xs : List γ} {yss : List (List β)}
    (h : List.Forall₂ (fun x ys => List.Forall₂ R (f x) ys) xs yss) :
    List.Forall₂ R (xs.flatMap f) yss.flatten := by
  induction h with
  | nil => exact .nil
  | cons hxy _ ih => exact List.rel_append hxy ih

variable [Digest TypeData]

namespace Mapper

open Interner

variable {m : Mapper} {t t' : Interner} {i : Instance}

/-! ## One edge -/

/-- Go up one edge. -/
def climb (m : Mapper) (i base : Instance) : Interning Instance := do
  (m.environment (← get) i).applyInstance base

/-- Go up a sequence of edges. -/
def compose (m : Mapper) (i : Instance) (p : List BaseEdge) : Interning Instance :=
  p.foldlM (fun reached e => m.climb reached e.base) i

theorem compose_concat (m : Mapper) (i : Instance) (p : List BaseEdge) (e : BaseEdge) :
    m.compose i (p ++ [e]) = m.compose i p >>= fun reached => m.climb reached e.base := by
  unfold compose
  rw [List.foldlM_append]
  simp

omit [Digest TypeData] in
theorem environment_eq (hi : t.IssuedList i.args) (hle : t ≤ t') :
    m.environment t' i = m.environment t i := by
  unfold environment
  rw [hi.args_eq hle]

theorem issued_environment (hwf : t.WellFormed) (i : Instance) : (m.environment t i).Issued t :=
  Substitution.issued_ofArgs fun _ hid => hwf.issued_of_mem_typeList hid

/-- `r` is what going up `base` from `i` comes to. -/
def Climbs (m : Mapper) (i base r : Instance) (t : Interner) : Prop :=
  Settled t (m.climb i base) r ∧ r.head = base.head ∧ t.IssuedList r.args

theorem lasting_climbs (m : Mapper) (i base : Instance) :
    Repeatable.Lasting (m.Climbs i base) :=
  fun _ _ _ _ hle h => ⟨h.1.of_le hle, h.2.1, h.2.2.of_le hle⟩

/-- Expanding an edge through an environment that has been read before. -/
theorem repeatable_climb (hwf : t.WellFormed) (hi : t.IssuedList i.args) {base : Instance}
    (hbase : t.IssuedList base.args) (hle : t ≤ t') (hwf' : t'.WellFormed) :
    Repeatable t' ((m.environment t i).applyInstance base) (m.Climbs i base) := by
  have hs := (issued_environment (m := m) hwf i).of_le hle
  refine (Substitution.repeatable_applyInstance hwf' hs (hbase.of_le hle)).mono ?_
  rintro r t'' hle' _ hsettled ⟨hhead, hr, -⟩
  refine ⟨.read ?_ hsettled, hhead, hr⟩
  intro t''' hle'' _
  rw [environment_eq hi (Interner.le_trans hle (Interner.le_trans hle' hle''))]

omit [Digest TypeData] in
theorem filter_bases (m : Mapper) (c d : ClassId) :
    (m.view.bases c).filter (·.head = d) =
      ((m.view.edges c).filter (·.target = d)).map BaseEdge.base := by
  rw [← ClassView.map_base_edges, List.filter_map]
  rfl

/-- Without an edge to the class asked for there is a special answer, with one there is not. -/
theorem direct_of_edge {d : ClassId} (hd : (m.view.edges i.head).filter (·.target = d) ≠ []) :
    m.direct i d = get >>= fun t =>
      ((m.view.bases i.head).filter (·.head = d)).mapM (m.environment t i).applyInstance := by
  have hne : (m.view.bases i.head).filter (·.head = d) ≠ [] := by
    rw [filter_bases]
    exact fun hnil => hd (List.map_eq_nil_iff.mp hnil)
  unfold direct
  split
  · rename_i hnil
    exact absurd hnil hne
  · rfl

/-- Going up to a class that some edge leads to is going up each of these edges. -/
theorem repeatable_direct (hwf : t.WellFormed) (hi : t.IssuedList i.args)
    (hbases : ∀ base ∈ m.view.bases i.head, t.IssuedList base.args) {d : ClassId}
    (hd : (m.view.edges i.head).filter (·.target = d) ≠ []) :
    Repeatable t (m.direct i d) fun rs t' =>
      List.Forall₂ (fun e r => m.Climbs i e.base r t')
        ((m.view.edges i.head).filter (·.target = d)) rs := by
  rw [direct_of_edge hd]
  refine .read ?_ ?_
  · intro t' hle _
    rw [environment_eq hi hle]
  · refine (Repeatable.mapM (lasting_climbs m i) hwf ?_).mono ?_
    · intro base hbase t' hle hwf'
      exact repeatable_climb hwf hi (hbases base (List.mem_of_mem_filter hbase)) hle hwf'
    · intro rs t' _ _ _ hrs
      rwa [filter_bases, List.forall₂_map_left_iff] at hrs

/-! ## A path of classes -/

/-- `r` is what going up `p` from `i` comes to. -/
def Composes (m : Mapper) (i : Instance) (p : List BaseEdge) (r : Instance) (t : Interner) : Prop :=
  Settled t (m.compose i p) r ∧ t.IssuedList r.args

theorem lasting_composes (m : Mapper) (i : Instance) (p : List BaseEdge) :
    Repeatable.Lasting (m.Composes i p) :=
  fun _ _ _ _ hle h => ⟨h.1.of_le hle, h.2.of_le hle⟩

/-- Going up an edge from what going up `p` comes to is going up one edge more. -/
theorem Composes.concat {p : List BaseEdge} {reached r : Instance} {e : BaseEdge}
    (hp : m.Composes i p reached t) (he : m.Climbs reached e.base r t) :
    m.Composes i (p ++ [e]) r t := by
  refine ⟨?_, he.2.2⟩
  rw [compose_concat]
  exact hp.1.bind he.1

/-- Along a path of classes the results are those of all sequences of edges through them. -/
theorem repeatable_along (hwf : t.WellFormed) (hi : t.IssuedList i.args)
    (hbases : ∀ c, ∀ base ∈ m.view.bases c, t.IssuedList base.args) {path : List ClassId}
    (hpath : m.view.parallel i.head path ≠ []) :
    Repeatable t (m.along i path) fun rs t' =>
      List.Forall₂ (fun p r => m.Composes i p r t' ∧ r.head = path.getLastD i.head)
        (m.view.parallel i.head path) rs := by
  induction path using List.reverseRecOn with
  | nil =>
    exact .pure hwf (.cons ⟨⟨.pure t i, hi⟩, rfl⟩ .nil)
  | append_singleton path d ih =>
    rw [ClassView.parallel_concat] at hpath ⊢
    -- the classes before `d` are gone through, and from the last an edge leads to `d`
    have hpath' : m.view.parallel i.head path ≠ [] := by
      intro hnil
      rw [hnil] at hpath
      exact hpath rfl
    have hd : (m.view.edges (path.getLastD i.head)).filter (·.target = d) ≠ [] := by
      intro hnil
      rw [hnil] at hpath
      exact hpath (by simp)
    have hsteps : m.along i (path ++ [d]) = m.along i path >>= fun reached => do
        return (← reached.mapM (m.direct · d)).flatten := by
      unfold along
      rw [List.foldlM_append]
      simp
    rw [hsteps]
    refine (ih hpath').bind ?_
    -- one class further from every instance that has been reached
    intro reached t₁ hle₁ hwf₁ _ hreached
    refine (Repeatable.mapM (P := fun j rs t => List.Forall₂ (fun e r => m.Climbs j e.base r t)
      ((m.view.edges j.head).filter (·.target = d)) rs) ?_ hwf₁ ?_).bind ?_
    · intro j rs t₂ t₃ hwf₂ hle h
      exact h.imp fun e r hr => lasting_climbs m j e.base r t₂ t₃ hwf₂ hle hr
    · intro j hj t₂ hle₂ hwf₂
      obtain ⟨p, -, hp, hhead⟩ := exists_of_mem_right hreached hj
      refine repeatable_direct hwf₂ (hp.2.of_le hle₂) ?_ ?_
      · exact fun base hbase => (hbases _ base hbase).of_le (Interner.le_trans hle₁ hle₂)
      · rwa [hhead]
    · -- each result goes one edge on from one of these
      intro rss t₂ hle₂ hwf₂ _ hrss
      refine .pure hwf₂ (forall₂_flatMap (forall₂_trans ?_ hreached hrss))
      rintro p j rs ⟨hp, hhead⟩ hrs
      rw [hhead] at hrs
      rw [List.forall₂_map_left_iff, List.getLastD_concat]
      have htargets : ∀ e ∈ (m.view.edges (path.getLastD i.head)).filter (·.target = d),
          e.target = d := fun e he => by simpa using (List.mem_filter.mp he).2
      refine ((List.forall₂_and_left _ _).mpr ⟨htargets, hrs⟩).imp ?_
      rintro e r ⟨rfl, hr⟩
      exact ⟨(lasting_composes m i p j t₁ t₂ hwf₁ hle₂ hp).concat hr, hr.2.1⟩

/-! ## All paths -/

/-- Mapping to an ancestor: for each edge path in order, what going up each path through the same
classes comes to. -/
theorem repeatable_supertypes (hm : m.limit = none) (hview : m.view.Acyclic) (hwf : t.WellFormed)
    (hi : t.IssuedList i.args) (hbases : ∀ c, ∀ base ∈ m.view.bases c, t.IssuedList base.args)
    {target : ClassId} (htarget : ∃ p, m.view.EdgePath target i.head p) :
    Repeatable t (m.supertypes i target) fun rs t' =>
      List.Forall₂ (fun p r => m.Composes i p r t')
        (ClassView.spread (m.view.edgePaths i.head target)) rs := by
  -- what `along` goes through is what `spread` lists
  have hparallel : ∀ p ∈ m.view.edgePaths i.head target,
      (m.view.edgePaths i.head target).filter (BaseEdge.classes · = BaseEdge.classes p) =
        m.view.parallel i.head (BaseEdge.classes p) := by
    intro p hp
    have hedge := (ClassView.mem_edgePaths_iff hview).mp hp
    exact hedge.filter_classes hview (hedge.length_le hview)
  have hpaths : m.view.paths m.limit i.head target =
      (m.view.edgePaths i.head target).map BaseEdge.classes := by
    rw [hm]
    exact m.view.allPaths_eq i.head target
  have hspread : ClassView.spread (m.view.edgePaths i.head target) =
      (m.view.paths m.limit i.head target).flatMap (m.view.parallel i.head) := by
    unfold ClassView.spread
    rw [hpaths, List.flatMap_map]
    exact List.flatMap_congr hparallel
  rw [hspread]
  unfold supertypes
  refine (Repeatable.mapM (P := fun path rs t =>
    List.Forall₂ (fun p r => m.Composes i p r t) (m.view.parallel i.head path) rs)
    ?_ hwf ?_).bind ?_
  · intro path rs t₁ t₂ hwf₁ hle h
    exact h.imp fun p r hr => lasting_composes m i p r t₁ t₂ hwf₁ hle hr
  · intro path hpath t₁ hle₁ hwf₁
    rw [hpaths] at hpath
    obtain ⟨p, hp, rfl⟩ := List.mem_map.mp hpath
    have hne : m.view.parallel i.head (BaseEdge.classes p) ≠ [] := by
      rw [← hparallel p hp]
      exact List.ne_nil_of_mem (List.mem_filter.mpr ⟨hp, by simp⟩)
    refine (repeatable_along hwf₁ (hi.of_le hle₁)
      (fun c base hbase => (hbases c base hbase).of_le hle₁) hne).mono ?_
    intro rs t₂ _ _ _ hrs
    exact hrs.imp fun p r hr => hr.1
  · intro rss t₁ _ hwf₁ _ hrss
    have hresults := forall₂_flatMap hrss
    split
    · -- some path there is, and with it a result
      rename_i hnil
      obtain ⟨p, hp⟩ := htarget
      have hmem := (ClassView.mem_edgePaths_iff hview).mpr hp
      have hspread' := ClassView.mem_spread.mpr hmem
      rw [hspread] at hspread'
      obtain ⟨r, hr, -⟩ := exists_of_mem_left hresults hspread'
      rw [hnil] at hr
      exact absurd hr List.not_mem_nil
    · exact .pure hwf₁ hresults

/-- Mapping to an ancestor that one path leads to. -/
theorem repeatable_supertypes_of_only (hm : m.limit = none) (hview : m.view.Acyclic)
    (hwf : t.WellFormed) (hi : t.IssuedList i.args)
    (hbases : ∀ c, ∀ base ∈ m.view.bases c, t.IssuedList base.args) {target : ClassId}
    {p : List BaseEdge} (honly : ∀ q, m.view.EdgePath target i.head q ↔ q = p) :
    Repeatable t (m.supertypes i target) fun rs t' => ∃ r, rs = [r] ∧ m.Composes i p r t' := by
  have hpath := (honly p).mpr rfl
  refine (repeatable_supertypes hm hview hwf hi hbases ⟨p, hpath⟩).mono ?_
  intro rs t' _ _ _ hrs
  rw [ClassView.spread_of_only hview honly] at hrs
  obtain ⟨r, rest, hr, hrest, rfl⟩ := List.forall₂_cons_left_iff.mp hrs
  obtain rfl := List.forall₂_nil_left_iff.mp hrest
  exact ⟨r, rfl, hr⟩

/-- Mapping to a class that is no ancestor. -/
theorem repeatable_supertypes_of_no_path (hm : m.limit = none) (hwf : t.WellFormed)
    {target : ClassId} (htarget : ¬ ∃ p, m.view.EdgePath target i.head p) :
    Repeatable t (m.supertypes i target) fun rs t' =>
      ∃ r, rs = [r] ∧ Settled t' (m.anyInstance target .fromError) r := by
  have hpaths : m.view.paths m.limit i.head target = [] := by
    rw [hm]
    show m.view.allPaths i.head target = []
    rw [ClassView.allPaths_eq, List.map_eq_nil_iff, List.eq_nil_iff_forall_not_mem]
    exact fun p hp => htarget ⟨p, ClassView.edgePath_of_mem hp⟩
  have hany : ∀ id ∈ List.replicate (m.view.arity target) (TypeId.any .fromError), t.Issued id :=
    fun id hid => (List.eq_of_mem_replicate hid) ▸ issued_any .fromError
  unfold supertypes
  rw [hpaths, List.mapM_nil, pure_bind]
  refine (repeatable_apply hwf target hany).bind ?_
  intro r t' _ hwf' hsettled _
  exact .pure hwf' ⟨r, rfl, hsettled⟩

end Mapper

end Supertypes
