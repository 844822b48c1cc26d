import Mathlib.Data.List.Perm.Subperm
import Mathlib.Logic.Relation
import Supertypes.Ancestry.Paths
import Supertypes.Proofs.Search

/-!
# Paths of base edges

A derivation path lists classes and so forgets which of several edges to the same class it goes
along. Here are the paths of edges behind them.

- `ClassView.EdgePath`: a sequence of base edges that leads from a class to an ancestor.
  `ClassView.Way`: the same, or no edges at all.
- `ClassView.edgePaths` enumerates these sequences. On a hierarchy without cycles it lists every
  one of them (`ClassView.mem_edgePaths_iff`), in the order of the places that the edges are
  declared at (`ClassView.edgePaths_ascend`), and the derivation paths are the classes that they
  run through (`ClassView.allPaths_eq`).
- `ClassView.NoParallelEdges`: on the way up no class has two edges to the same class.
  `ClassView.nodup_allPaths_iff` says that just then no two edge paths run through the same
  classes.
-/

namespace Supertypes

open Relation

/-- A base edge, with its place among the base edges of its class. -/
structure BaseEdge where
  base : Instance
  place : Nat
  deriving DecidableEq, Repr

namespace BaseEdge

/-- The class that the edge leads to. -/
def target (e : BaseEdge) : ClassId := e.base.head

/-- The classes that a sequence of edges runs through. -/
def classes (p : List BaseEdge) : List ClassId := p.map target

@[simp]
theorem length_classes (p : List BaseEdge) : (classes p).length = p.length :=
  List.length_map _

/-- The places of the edges of a sequence. -/
def places (p : List BaseEdge) : List Nat := p.map place

end BaseEdge

namespace ClassView

variable {view : ClassView} {target c : ClassId}

/-- The base edges of a class, in the order of declaration. -/
def edges (view : ClassView) (c : ClassId) : List BaseEdge :=
  (view.bases c).mapIdx fun place base => ⟨base, place⟩

/-- The classes that base edges of a class lead to. -/
def parents (view : ClassView) (c : ClassId) : List ClassId :=
  (view.bases c).map Instance.head

theorem map_base_edges (view : ClassView) (c : ClassId) :
    (view.edges c).map BaseEdge.base = view.bases c := by
  refine List.ext_getElem (by simp [edges]) fun i _ _ => ?_
  simp [edges]

/-- The edges of a class are listed in the order of their places. -/
theorem edges_ascend (view : ClassView) (c : ClassId) :
    (view.edges c).Pairwise fun e e' => e.place < e'.place := by
  unfold edges
  rw [List.pairwise_iff_getElem]
  intro i j hi hj hij
  simpa using hij

theorem mem_parents_iff {a : ClassId} : a ∈ view.parents c ↔ ∃ e ∈ view.edges c, e.target = a := by
  unfold parents
  rw [← map_base_edges, List.map_map, List.mem_map]
  rfl

/-! ## Sequences of edges -/

/-- The edges lead from a class to `target`: the first is an edge of the class, each further one
an edge of the class that the one before leads to, and the last leads to `target`. -/
inductive EdgePath (view : ClassView) (target : ClassId) : ClassId → List BaseEdge → Prop
  | last {c : ClassId} {e : BaseEdge} (he : e ∈ view.edges c) (htarget : e.target = target) :
    EdgePath view target c [e]
  | step {c : ClassId} {e : BaseEdge} {p : List BaseEdge} (he : e ∈ view.edges c)
    (hp : EdgePath view target e.target p) : EdgePath view target c (e :: p)

/-- The edge paths from `c` to `target` with at most `length` edges. -/
def edgePathsFrom (view : ClassView) (target : ClassId) : Nat → ClassId → List (List BaseEdge)
  | 0, _ => []
  | length + 1, c =>
    (view.edges c).flatMap fun e =>
      if e.target = target then [[e]]
      else (view.edgePathsFrom target length e.target).map (e :: ·)

/-- A listed path is an edge to `target`, or an edge to another class and a path that is listed
for that class. -/
theorem mem_edgePathsFrom_succ {length : Nat} {p : List BaseEdge} :
    p ∈ view.edgePathsFrom target (length + 1) c ↔ ∃ e ∈ view.edges c,
      e.target = target ∧ p = [e] ∨
        e.target ≠ target ∧ ∃ tail ∈ view.edgePathsFrom target length e.target, p = e :: tail := by
  rw [edgePathsFrom, List.mem_flatMap]
  refine exists_congr fun e => and_congr_right fun _ => ?_
  by_cases htarget : e.target = target
  · simp [htarget]
  · simp [htarget, eq_comm]

/-- All edge paths from `c` to `target`. -/
def edgePaths (view : ClassView) (c target : ClassId) : List (List BaseEdge) :=
  view.edgePathsFrom target view.size c

/-- The derivation paths are the classes that the edge paths run through. -/
theorem pathsFrom_eq (view : ClassView) (target : ClassId) (length : Nat) (c : ClassId) :
    view.pathsFrom target length c = (view.edgePathsFrom target length c).map BaseEdge.classes := by
  induction length generalizing c with
  | zero => rfl
  | succ length ih =>
    unfold pathsFrom edgePathsFrom
    rw [← map_base_edges, List.flatMap_map, List.map_flatMap]
    refine List.flatMap_congr fun e _ => ?_
    by_cases h : e.base.head = target
    · rw [if_pos h, if_pos (show e.target = target from h)]
      simp [BaseEdge.classes, BaseEdge.target, h]
    · rw [if_neg h, if_neg (show ¬ e.target = target from h), ih, List.map_map, List.map_map]
      rfl

/-- The derivation paths are the classes along the edge paths. -/
theorem allPaths_eq (view : ClassView) (c target : ClassId) :
    view.allPaths c target = (view.edgePaths c target).map BaseEdge.classes :=
  view.pathsFrom_eq target view.size c

/-- What is listed is an edge path. -/
theorem edgePath_of_mem {length : Nat} {p : List BaseEdge}
    (hp : p ∈ view.edgePathsFrom target length c) : view.EdgePath target c p := by
  induction length generalizing c p with
  | zero => exact absurd hp List.not_mem_nil
  | succ length ih =>
    obtain ⟨e, he, ⟨htarget, rfl⟩ | ⟨-, tail, htail, rfl⟩⟩ := mem_edgePathsFrom_succ.mp hp
    · exact .last he htarget
    · exact .step he (ih htail)

/-- Edge paths come in the order of their places, the first place counting first. -/
theorem edgePathsFrom_ascend (view : ClassView) (target : ClassId) (length : Nat) (c : ClassId) :
    (view.edgePathsFrom target length c).Pairwise
      fun p q => BaseEdge.places p < BaseEdge.places q := by
  induction length generalizing c with
  | zero => exact .nil
  | succ length ih =>
    unfold edgePathsFrom
    -- all paths in the part of one edge begin with that edge
    have hhead : ∀ e, ∀ p ∈ (if e.target = target then [[e]]
        else (view.edgePathsFrom target length e.target).map (e :: ·)), ∃ tail, p = e :: tail := by
      intro e p hp
      split at hp
      · exact ⟨[], List.mem_singleton.mp hp⟩
      · obtain ⟨tail, -, rfl⟩ := List.mem_map.mp hp
        exact ⟨tail, rfl⟩
    rw [List.pairwise_flatMap]
    refine ⟨?_, (view.edges_ascend c).imp ?_⟩
    · -- two paths with the same first edge
      intro e _
      split
      · exact List.pairwise_singleton _ _
      · rw [List.pairwise_map]
        refine (ih e.target).imp fun {p q} hpq => ?_
        exact List.cons_lt_cons_iff.mpr (.inr ⟨rfl, hpq⟩)
    · -- two paths with different first edges
      intro e e' hplace p hp q hq
      obtain ⟨tail, rfl⟩ := hhead e p hp
      obtain ⟨tail', rfl⟩ := hhead e' q hq
      exact List.cons_lt_cons_iff.mpr (.inl hplace)

/-- The edge paths are listed in lexicographic order of their places. -/
theorem edgePaths_ascend (view : ClassView) (c target : ClassId) :
    (view.edgePaths c target).Pairwise fun p q => BaseEdge.places p < BaseEdge.places q :=
  view.edgePathsFrom_ascend target view.size c

/-! ## All of them -/

/-- A view without cycles, in which no more than `size` classes have base edges. -/
structure Acyclic (view : ClassView) : Prop where
  irrefl : ∀ c, ¬ TransGen (Search.Step view.parents) c c
  few : ∃ nodes : List ClassId, nodes.length ≤ view.size ∧ ∀ c, view.bases c ≠ [] → c ∈ nodes

theorem EdgePath.ne_nil {p : List BaseEdge} (hp : view.EdgePath target c p) : p ≠ [] := by
  cases hp <;> exact List.cons_ne_nil _ _

/-- An edge path makes its target an ancestor. -/
theorem EdgePath.ancestor {p : List BaseEdge} (hp : view.EdgePath target c p) :
    TransGen (Search.Step view.parents) c target := by
  induction hp with
  | last he htarget => exact .single (mem_parents_iff.mpr ⟨_, he, htarget⟩)
  | step he _ ih => exact .head (mem_parents_iff.mpr ⟨_, he, rfl⟩) ih

/-- There is an edge path to each ancestor. -/
theorem exists_edgePath_iff :
    (∃ p, view.EdgePath target c p) ↔ TransGen (Search.Step view.parents) c target := by
  constructor
  · rintro ⟨p, hp⟩
    exact hp.ancestor
  · intro h
    induction h using TransGen.head_induction_on with
    | single hstep =>
      obtain ⟨e, he, htarget⟩ := mem_parents_iff.mp hstep
      exact ⟨[e], .last he htarget⟩
    | head hstep _ ih =>
      obtain ⟨e, he, rfl⟩ := mem_parents_iff.mp hstep
      obtain ⟨p, hp⟩ := ih
      exact ⟨e :: p, .step he hp⟩

/-- The classes that the edges of a path start from are distinct, so a path is no longer than
there are classes with edges. -/
theorem EdgePath.length_le (hview : view.Acyclic) {p : List BaseEdge}
    (hp : view.EdgePath target c p) : p.length ≤ view.size := by
  obtain ⟨nodes, hsize, hnodes⟩ := hview.few
  have hbases : ∀ {d : ClassId} {e : BaseEdge}, e ∈ view.edges d → d ∈ nodes := by
    intro d e he
    refine hnodes d fun hnil => ?_
    unfold edges at he
    rw [hnil] at he
    exact absurd he List.not_mem_nil
  -- the classes that the edges start from
  suffices hsources : ∃ sources : List ClassId, sources.length = p.length ∧ sources.Nodup ∧
      (∀ d ∈ sources, d ∈ nodes) ∧
      ∀ d ∈ sources, ReflTransGen (Search.Step view.parents) c d by
    obtain ⟨sources, hlen, hnodup, hsub, -⟩ := hsources
    rw [← hlen]
    exact Nat.le_trans (hnodup.subperm hsub).length_le hsize
  induction hp with
  | @last c e he _ =>
    refine ⟨[c], rfl, List.nodup_singleton c, ?_, ?_⟩
    · simpa using hbases he
    · simpa using .refl
  | @step c e p he _ ih =>
    obtain ⟨sources, hlen, hnodup, hsub, hreach⟩ := ih
    have hstep : Search.Step view.parents c e.target := mem_parents_iff.mpr ⟨e, he, rfl⟩
    refine ⟨c :: sources, by simp [hlen], List.nodup_cons.mpr ⟨?_, hnodup⟩, ?_, ?_⟩
    · -- a path back to `c` would close a cycle
      intro hc
      exact hview.irrefl c (.head' hstep (hreach c hc))
    · simpa [hbases he] using hsub
    · rw [List.forall_mem_cons]
      exact ⟨.refl, fun d hd => .head hstep (hreach d hd)⟩

/-- A path that has come to `target` does not come there again. -/
theorem EdgePath.start_ne (hview : view.Acyclic) {p : List BaseEdge}
    (hp : view.EdgePath target c p) : c ≠ target := by
  rintro rfl
  exact hview.irrefl c hp.ancestor

/-- Without cycles, an edge path within the length is listed. -/
theorem EdgePath.mem (hview : view.Acyclic) {p : List BaseEdge} (hp : view.EdgePath target c p)
    {length : Nat} (hlen : p.length ≤ length) : p ∈ view.edgePathsFrom target length c := by
  induction hp generalizing length with
  | @last c e he htarget =>
    cases length with
    | zero => exact absurd hlen (by simp)
    | succ length => exact mem_edgePathsFrom_succ.mpr ⟨e, he, .inl ⟨htarget, rfl⟩⟩
  | @step c e p he hp ih =>
    cases length with
    | zero => exact absurd hlen (by simp)
    | succ length =>
      have htail := ih (Nat.le_of_succ_le_succ hlen)
      exact mem_edgePathsFrom_succ.mpr ⟨e, he, .inr ⟨hp.start_ne hview, p, htail, rfl⟩⟩

/-- Without cycles all edge paths are listed. -/
theorem mem_edgePaths_iff (hview : view.Acyclic) {p : List BaseEdge} :
    p ∈ view.edgePaths c target ↔ view.EdgePath target c p :=
  ⟨edgePath_of_mem, fun hp => hp.mem hview (hp.length_le hview)⟩

/-- No edge path is listed twice. -/
theorem nodup_edgePaths (view : ClassView) (c target : ClassId) :
    (view.edgePaths c target).Nodup :=
  (view.edgePaths_ascend c target).imp fun {p q} hlt heq => by
    rw [heq] at hlt
    exact List.lt_irrefl (BaseEdge.places q) hlt

/-! ## Ways -/

/-- The edges lead from a class to `target`; if there are none, the class is `target` itself. -/
def Way (view : ClassView) (target : ClassId) : ClassId → List BaseEdge → Prop
  | c, [] => c = target
  | c, e :: p => e ∈ view.edges c ∧ view.Way target e.target p

/-- An edge path is a way with some edge. -/
theorem edgePath_iff_way {p : List BaseEdge} :
    view.EdgePath target c p ↔ p ≠ [] ∧ view.Way target c p := by
  constructor
  · intro hp
    refine ⟨hp.ne_nil, ?_⟩
    induction hp with
    | last he htarget => exact ⟨he, htarget⟩
    | step he _ ih => exact ⟨he, ih⟩
  · induction p generalizing c with
    | nil => exact fun hp => absurd rfl hp.1
    | cons e p ih =>
      rintro ⟨-, he, hp⟩
      cases p with
      | nil => exact .last he hp
      | cons e' p => exact .step he (ih ⟨List.cons_ne_nil e' p, hp⟩)

/-- Paths depend on the base edges only. -/
theorem EdgePath.of_bases {view' : ClassView} (hbases : ∀ c, view'.bases c = view.bases c)
    {p : List BaseEdge} (hp : view.EdgePath target c p) : view'.EdgePath target c p := by
  have hedges : ∀ c, view'.edges c = view.edges c := by
    intro c
    unfold edges
    rw [hbases]
  induction hp with
  | last he htarget => exact .last (hedges _ ▸ he) htarget
  | step he _ ih => exact .step (hedges _ ▸ he) ih

/-! ## Parallel edges -/

/-- The sequences of edges from `c` that run through the given classes. -/
def parallel (view : ClassView) : ClassId → List ClassId → List (List BaseEdge)
  | _, [] => [[]]
  | c, d :: ds =>
    ((view.edges c).filter (·.target = d)).flatMap fun e => (view.parallel d ds).map (e :: ·)

/-- Sequences with one class more have one edge more. -/
theorem parallel_concat (view : ClassView) (c : ClassId) (ds : List ClassId) (d : ClassId) :
    view.parallel c (ds ++ [d]) = (view.parallel c ds).flatMap fun p =>
      ((view.edges (ds.getLastD c)).filter (·.target = d)).map fun e => p ++ [e] := by
  induction ds generalizing c with
  | nil => simp [parallel, List.map_eq_flatMap]
  | cons first ds ih =>
    rw [List.cons_append, parallel, parallel, ih, List.getLastD_cons, List.flatMap_assoc]
    refine List.flatMap_congr fun e _ => ?_
    rw [List.map_flatMap, List.flatMap_map]
    refine List.flatMap_congr fun p _ => ?_
    rw [List.map_map]
    rfl

/-- What follows an edge to `d` on the paths to `target`. -/
def tailsFrom (view : ClassView) (target : ClassId) (length : Nat) (d : ClassId) :
    List (List BaseEdge) :=
  if d = target then [[]] else view.edgePathsFrom target length d

/-- The edge paths go through one edge first and then through a tail of it. -/
theorem edgePathsFrom_succ (view : ClassView) (target : ClassId) (length : Nat) (c : ClassId) :
    view.edgePathsFrom target (length + 1) c =
      (view.edges c).flatMap fun e => (view.tailsFrom target length e.target).map (e :: ·) := by
  unfold edgePathsFrom tailsFrom
  refine List.flatMap_congr fun e _ => ?_
  split
  · rfl
  · rfl

/-- Picking the paths that go to `d` first. -/
theorem filter_classes_cons (view : ClassView) (target : ClassId) (length : Nat) (c d : ClassId)
    (ds : List ClassId) :
    (view.edgePathsFrom target (length + 1) c).filter (BaseEdge.classes · = d :: ds) =
      ((view.edges c).filter (·.target = d)).flatMap fun e =>
        ((view.tailsFrom target length d).filter (BaseEdge.classes · = ds)).map (e :: ·) := by
  rw [edgePathsFrom_succ]
  induction view.edges c with
  | nil => rfl
  | cons e es ih =>
    rw [List.flatMap_cons, List.filter_append, ih, List.filter_map]
    -- an edge elsewhere begins none of the paths in question
    by_cases he : e.target = d
    · have hpick : ((BaseEdge.classes · = d :: ds) : List BaseEdge → Bool) ∘ (e :: ·) =
          fun p => decide (BaseEdge.classes p = ds) := by
        funext p
        exact decide_eq_decide.mpr (by simp [BaseEdge.classes, he])
      rw [List.filter_cons_of_pos (by simpa using he), List.flatMap_cons, hpick, he]
    · have hpick : ((BaseEdge.classes · = d :: ds) : List BaseEdge → Bool) ∘ (e :: ·) =
          fun _ => false := by
        funext p
        simp [BaseEdge.classes, he]
      rw [List.filter_cons_of_neg (by simpa using he), hpick]
      simp

/-- The listed paths through the classes of a path are all that run through these. -/
theorem EdgePath.filter_classes (hview : view.Acyclic) {p : List BaseEdge}
    (hp : view.EdgePath target c p) {length : Nat} (hlen : p.length ≤ length) :
    (view.edgePathsFrom target length c).filter (BaseEdge.classes · = BaseEdge.classes p) =
      view.parallel c (BaseEdge.classes p) := by
  induction hp generalizing length with
  | @last c e he htarget =>
    cases length with
    | zero => exact absurd hlen (by simp)
    | succ length =>
      show List.filter (BaseEdge.classes · = [e.target]) _ = view.parallel c [e.target]
      rw [filter_classes_cons, parallel, tailsFrom, if_pos htarget]
      rfl
  | @step c e p he hp ih =>
    cases length with
    | zero => exact absurd hlen (by simp)
    | succ length =>
      show List.filter (BaseEdge.classes · = e.target :: BaseEdge.classes p) _ =
        view.parallel c (e.target :: BaseEdge.classes p)
      rw [filter_classes_cons, parallel, tailsFrom, if_neg (hp.start_ne hview),
        ih (Nat.le_of_succ_le_succ hlen)]

/-- On the way from `c` to `target` no class has two edges to the same class. -/
def NoParallelEdges (view : ClassView) (c target : ClassId) : Prop :=
  ∀ d, ReflTransGen (Search.Step view.parents) c d →
    ∀ e ∈ view.edges d, ∀ e' ∈ view.edges d, e.target = e'.target →
      ReflTransGen (Search.Step view.parents) e.target target → e = e'

theorem NoParallelEdges.of_edge (h : view.NoParallelEdges c target) {e : BaseEdge}
    (he : e ∈ view.edges c) : view.NoParallelEdges e.target target :=
  fun d hd => h d (hd.head (mem_parents_iff.mpr ⟨e, he, rfl⟩))

/-- Without parallel edges the classes tell paths apart. -/
theorem EdgePath.eq_of_classes (h : view.NoParallelEdges c target) {p q : List BaseEdge}
    (hp : view.EdgePath target c p) (hq : view.EdgePath target c q)
    (hpq : BaseEdge.classes p = BaseEdge.classes q) : p = q := by
  induction hp generalizing q with
  | @last c e he htarget =>
    cases hq with
    | @last _ e' he' _ =>
      have heq : e.target = e'.target := by simpa [BaseEdge.classes] using hpq
      rw [h c .refl e he e' he' heq (htarget ▸ .refl)]
    | @step _ e' q he' hq =>
      obtain ⟨-, hnil⟩ := List.cons_eq_cons.mp hpq
      exact absurd (List.map_eq_nil_iff.mp hnil.symm) hq.ne_nil
  | @step c e p he hp ih =>
    cases hq with
    | @last _ e' he' _ =>
      obtain ⟨-, hnil⟩ := List.cons_eq_cons.mp hpq
      exact absurd (List.map_eq_nil_iff.mp hnil) hp.ne_nil
    | @step _ e' q he' hq =>
      -- the first edges agree, and so do the rests
      obtain ⟨heq, hclasses⟩ := List.cons_eq_cons.mp hpq
      obtain rfl := h c .refl e he e' he' heq hp.ancestor.to_reflTransGen
      rw [ih (h.of_edge he) hq hclasses]

/-- A way up can be gone before a path. -/
theorem exists_way {d : ClassId} (hd : ReflTransGen (Search.Step view.parents) c d) :
    ∃ way : List BaseEdge, ∀ p, view.EdgePath target d p → view.EdgePath target c (way ++ p) := by
  induction hd using ReflTransGen.head_induction_on with
  | refl => exact ⟨[], fun p hp => hp⟩
  | head hstep _ ih =>
    obtain ⟨e, he, rfl⟩ := mem_parents_iff.mp hstep
    obtain ⟨way, hway⟩ := ih
    exact ⟨e :: way, fun p hp => .step he (hway p hp)⟩

/-- An edge can be completed to a path if it leads to `target` or below it. -/
theorem exists_tail {d : ClassId} (hd : ReflTransGen (Search.Step view.parents) d target) :
    ∃ tail : List BaseEdge, ∀ c, ∀ e ∈ view.edges c, e.target = d →
      view.EdgePath target c (e :: tail) := by
  rcases reflTransGen_iff_eq_or_transGen.mp hd with heq | hpath
  · exact ⟨[], fun c e he htarget => .last he (htarget.trans heq.symm)⟩
  · obtain ⟨p, hp⟩ := exists_edgePath_iff.mpr hpath
    exact ⟨p, fun c e he htarget => .step he (htarget ▸ hp)⟩

/-- Just without parallel edges no two paths run through the same classes. -/
theorem nodup_allPaths_iff (hview : view.Acyclic) :
    (view.allPaths c target).Nodup ↔ view.NoParallelEdges c target := by
  rw [allPaths_eq]
  constructor
  · intro hnodup d hd e he e' he' heq htarget
    -- two paths that differ in the parallel edges only
    obtain ⟨way, hway⟩ := @exists_way view target c d hd
    obtain ⟨tail, htail⟩ := exists_tail htarget
    have hp := (mem_edgePaths_iff hview).mpr (hway _ (htail d e he rfl))
    have hq := (mem_edgePaths_iff hview).mpr (hway _ (htail d e' he' heq.symm))
    have hclasses : BaseEdge.classes (way ++ e :: tail) = BaseEdge.classes (way ++ e' :: tail) := by
      simp [BaseEdge.classes, heq]
    have hpaths := List.inj_on_of_nodup_map hnodup hp hq hclasses
    simpa using hpaths
  · intro h
    refine (view.nodup_edgePaths c target).map_on fun p hp q hq hclasses => ?_
    have hp' := (mem_edgePaths_iff hview).mp hp
    have hq' := (mem_edgePaths_iff hview).mp hq
    exact hp'.eq_of_classes h hq' hclasses

/-- The paths through the classes of a path, for each path in order. -/
def spread (paths : List (List BaseEdge)) : List (List BaseEdge) :=
  paths.flatMap fun p => paths.filter (BaseEdge.classes · = BaseEdge.classes p)

/-- Spreading adds no path that is not there. -/
theorem mem_spread {paths : List (List BaseEdge)} {p : List BaseEdge} :
    p ∈ spread paths ↔ p ∈ paths := by
  unfold spread
  rw [List.mem_flatMap]
  constructor
  · rintro ⟨_, -, hp⟩
    exact List.mem_of_mem_filter hp
  · intro hp
    exact ⟨p, hp, List.mem_filter.mpr ⟨hp, by simp⟩⟩

/-- The first path still comes first. -/
theorem spread_cons (p : List BaseEdge) (paths : List (List BaseEdge)) :
    ∃ more, spread (p :: paths) = p :: more := by
  unfold spread
  rw [List.flatMap_cons, List.filter_cons_of_pos (by simp)]
  exact ⟨_, rfl⟩

/-- A list is no longer than its images together, if none of them is empty. -/
theorem length_le_length_flatMap {α β : Type} {xs : List α} {f : α → List β}
    (hne : ∀ x ∈ xs, f x ≠ []) : xs.length ≤ (xs.flatMap f).length := by
  induction xs with
  | nil => exact Nat.le_refl 0
  | cons x xs ih =>
    rw [List.forall_mem_cons] at hne
    have hfirst : 0 < (f x).length := List.length_pos_iff.mpr hne.1
    have hrest := ih hne.2
    rw [List.flatMap_cons, List.length_append, List.length_cons]
    omega

/-- If lists that are not empty have one entry each on average, they have just one. -/
theorem length_eq_one_of_length_flatMap {α β : Type} {xs : List α} {f : α → List β}
    (hne : ∀ x ∈ xs, f x ≠ []) (hlen : (xs.flatMap f).length = xs.length) :
    ∀ x ∈ xs, (f x).length = 1 := by
  induction xs with
  | nil => exact fun x hx => absurd hx List.not_mem_nil
  | cons x xs ih =>
    rw [List.forall_mem_cons] at hne ⊢
    have hfirst : 0 < (f x).length := List.length_pos_iff.mpr hne.1
    have hrest := length_le_length_flatMap hne.2
    rw [List.flatMap_cons, List.length_append, List.length_cons] at hlen
    exact ⟨by omega, ih hne.2 (by omega)⟩

/-- Every path is one of those through its classes, so each one of them has to be the only
one. -/
theorem nodup_of_length_spread {paths : List (List BaseEdge)}
    (h : (spread paths).length = paths.length) : (paths.map BaseEdge.classes).Nodup := by
  have hself : ∀ p ∈ paths, paths.filter (BaseEdge.classes · = BaseEdge.classes p) ≠ [] :=
    fun p hp => List.ne_nil_of_mem (List.mem_filter.mpr ⟨hp, by simp⟩)
  have hone := length_eq_one_of_length_flatMap hself h
  -- how many paths there are through the same classes
  have hcount : ∀ p, (paths.filter (BaseEdge.classes · = BaseEdge.classes p)).length =
      (paths.map BaseEdge.classes).count (BaseEdge.classes p) := by
    intro p
    rw [List.count, List.countP_map, List.countP_eq_length_filter]
    refine congrArg List.length (List.filter_congr fun q _ => ?_)
    rw [Bool.eq_iff_iff, decide_eq_true_iff, Function.comp_apply, beq_iff_eq]
  rw [List.nodup_iff_count_eq_one]
  intro ds hds
  obtain ⟨p, hp, rfl⟩ := List.mem_map.mp hds
  rw [← hcount]
  exact hone p hp

/-- Where the classes tell paths apart, each path stands for itself. -/
theorem spread_of_nodup {paths : List (List BaseEdge)} (h : (paths.map BaseEdge.classes).Nodup) :
    spread paths = paths := by
  -- through the classes of `p` there is `p` only
  have hself : ∀ p ∈ paths, paths.filter (BaseEdge.classes · = BaseEdge.classes p) = [p] := by
    intro p hp
    have hfilter : paths.filter (BaseEdge.classes · = BaseEdge.classes p) =
        paths.filter (· == p) := by
      refine List.filter_congr fun q hq => ?_
      by_cases hqp : q = p
      · simp [hqp]
      · have hne : BaseEdge.classes q ≠ BaseEdge.classes p :=
          fun heq => hqp (List.inj_on_of_nodup_map h hq hp heq)
        simp [hqp, hne]
    rw [hfilter, List.filter_beq, List.count_eq_one_of_mem h.of_map hp]
    rfl
  unfold spread
  rw [List.flatMap_congr hself]
  exact List.flatMap_singleton' paths

/-- The only path is the only one that is listed. -/
theorem spread_of_only (hview : view.Acyclic) {p : List BaseEdge}
    (honly : ∀ q, view.EdgePath target c q ↔ q = p) : spread (view.edgePaths c target) = [p] := by
  have hpaths : view.edgePaths c target = [p] := by
    rw [← List.perm_singleton,
      List.perm_ext_iff_of_nodup (view.nodup_edgePaths c target) (List.nodup_singleton p)]
    intro q
    rw [mem_edgePaths_iff hview, honly, List.mem_singleton]
  rw [hpaths]
  exact spread_of_nodup (List.nodup_singleton _)

end ClassView

end Supertypes
