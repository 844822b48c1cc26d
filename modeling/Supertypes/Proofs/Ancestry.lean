import Supertypes.Classes.Recursion
import Supertypes.Proofs.Search

/-!
# Ancestors

- `Registry.Ancestor`: one class can be reached from another by base edges, at least one of them.
  `Registry.derives_iff` says that this is what `Registry.derives` decides.
- `Registry.Acyclic`: no class is its own ancestor. `Registry.Acyclic.append` is the one way in
  which edges are added.
- `Registry.get?_update`, `Registry.get?_add` and `Registry.get?_markRecursion`: what the changes
  of a registry do to the declarations of classes, and after them what they do to parameters and
  bases.
-/

namespace Supertypes.Registry

open Relation

variable {r r' : Registry}

/-! ## Changes, class by class -/

/-- An update reaches the class that it names and no other. -/
theorem get?_update (r : Registry) (c : ClassId) (f : ClassInfo → ClassInfo) (d : ClassId) :
    (r.update c f).get? d = (r.get? d).map fun info => if d = c then f info else info := by
  obtain ⟨m⟩ := d
  cases m with
  | zero => rfl
  | succ m =>
    obtain ⟨n⟩ := c
    cases n with
    | zero =>
      show r.classes[m]? = _
      simp [get?]
    | succ n =>
      show (r.classes.modify n f)[m]? = r.classes[m]?.map _
      rw [List.getElem?_modify]
      simp [eq_comm]

/-- An added class has the next number, and the classes before it keep theirs. -/
theorem get?_add (r : Registry) (info : ClassInfo) (d : ClassId) :
    (r.add info).2.get? d = if d = ⟨r.size + 1⟩ then some info else r.get? d := by
  obtain ⟨m⟩ := d
  cases m with
  | zero => rfl
  | succ m =>
    show (r.classes ++ [info])[m]? = if _ then some info else r.classes[m]?
    unfold size
    -- an older class, the new one, or none
    rcases Nat.lt_trichotomy m r.classes.length with h | h | h
    · rw [List.getElem?_append_left h, if_neg (by simp; omega)]
    · rw [if_pos (by simp [h]), h, List.getElem?_concat_length]
    · rw [if_neg (by simp; omega), List.getElem?_eq_none (by simp; omega),
        List.getElem?_eq_none (by omega)]

/-- Setting marks changes each declaration by itself. -/
theorem get?_markRecursion [Digest TypeData] (r : Registry) (types : Interner) (d : ClassId) :
    (r.markRecursion types).get? d = (r.get? d).map (r.markClass types d) := by
  obtain ⟨m⟩ := d
  cases m with
  | zero => rfl
  | succ m => exact List.getElem?_mapIdx ..

/-- The number after the last class is free. -/
theorem get?_size_succ (r : Registry) : r.get? ⟨r.size + 1⟩ = none :=
  List.getElem?_eq_none (Nat.le_refl _)

/-- Adding a class changes no other declaration. -/
theorem get?_add_of_some {info : ClassInfo} {d : ClassId} {old : ClassInfo}
    (hd : r.get? d = some old) : (r.add info).2.get? d = some old := by
  rw [get?_add, if_neg, hd]
  rintro rfl
  rw [get?_size_succ] at hd
  cases hd

/-- Nothing but an unknown number can be given to a class that is added. -/
theorem get?_add_cases (r : Registry) (info : ClassInfo) (d : ClassId) :
    (r.get? d = none ∧ (r.add info).2.get? d = some info) ∨
      (r.add info).2.get? d = r.get? d := by
  rw [get?_add]
  split
  · rename_i hd
    rw [hd]
    exact .inl ⟨r.get?_size_succ, rfl⟩
  · exact .inr rfl

theorem params_of_get? {c : ClassId} {info : ClassInfo} (h : r.get? c = some info) :
    r.params c = info.params := by
  rw [params, h]
  rfl

/-- A registered class has a declaration. -/
theorem get?_of_contains {c : ClassId} (hc : r.contains c = true) : ∃ info, r.get? c = some info :=
  Option.isSome_iff_exists.mp hc

@[simp] theorem contains_update (r : Registry) (c : ClassId) (f : ClassInfo → ClassInfo)
    (d : ClassId) : (r.update c f).contains d = r.contains d := by
  unfold contains
  rw [get?_update, Option.isSome_map]

/-- A class without base edges brings none in. -/
theorem bases_add {info : ClassInfo} (hinfo : info.bases = []) (d : ClassId) :
    (r.add info).2.bases d = r.bases d := by
  unfold bases
  rcases get?_add_cases r info d with ⟨hold, hnew⟩ | heq
  · rw [hold, hnew]
    exact hinfo
  · rw [heq]

/-- Nor does one without a shape bring one in. -/
theorem shape?_add {info : ClassInfo} (hinfo : info.shape = none) (d : ClassId) :
    (r.add info).2.shape? d = r.shape? d := by
  unfold shape?
  rcases get?_add_cases r info d with ⟨hold, hnew⟩ | heq
  · rw [hold, hnew]
    exact hinfo
  · rw [heq]

/-- An update that leaves type parameters alone changes those of no class. -/
theorem params_update {f : ClassInfo → ClassInfo} (hf : ∀ info, (f info).params = info.params)
    (r : Registry) (c d : ClassId) : (r.update c f).params d = r.params d := by
  unfold params
  rw [get?_update]
  cases r.get? d with
  | none => rfl
  | some info =>
    show ClassInfo.params (if d = c then f info else info) = info.params
    split
    · exact hf info
    · rfl

/-- An update that leaves base edges alone changes those of no class. -/
theorem bases_update {f : ClassInfo → ClassInfo} (hf : ∀ info, (f info).bases = info.bases)
    (r : Registry) (c d : ClassId) : (r.update c f).bases d = r.bases d := by
  unfold bases
  rw [get?_update]
  cases r.get? d with
  | none => rfl
  | some info =>
    show ClassInfo.bases (if d = c then f info else info) = info.bases
    split
    · exact hf info
    · rfl

/-- An update may set the shape of the class that it names, and of no other. -/
theorem shape?_update (r : Registry) (c : ClassId) (f : ClassInfo → ClassInfo) (d : ClassId) :
    (r.update c f).shape? d =
      if d = c then (r.get? d).bind fun info => (f info).shape else r.shape? d := by
  unfold shape?
  rw [get?_update]
  cases r.get? d with
  | none =>
    show none = if d = c then none else none
    rw [ite_self]
  | some info =>
    show ClassInfo.shape (if d = c then f info else info) =
      if d = c then (f info).shape else info.shape
    split <;> rfl

section

variable [Digest TypeData]

/-- Recursion marks are all that marking a class may change. -/
theorem markClass_cases (r : Registry) (types : Interner) (c : ClassId) (info : ClassInfo) :
    info.shape = none ∧ r.markClass types c info = info ∨
      ∃ shape recursive, info.shape = some shape ∧ r.markClass types c info =
        { info with
          shape := some { shape with isRecursive := recursive }
          flags := { info.flags with recursiveTuple := recursive } } := by
  unfold markClass
  cases hshape : info.shape with
  | none => exact .inl ⟨rfl, rfl⟩
  | some shape => exact .inr ⟨shape, _, rfl, rfl⟩

@[simp] theorem markClass_params (r : Registry) (types : Interner) (c : ClassId)
    (info : ClassInfo) : (r.markClass types c info).params = info.params := by
  rcases markClass_cases r types c info with ⟨-, heq⟩ | ⟨shape, recursive, -, heq⟩ <;> rw [heq]

@[simp] theorem markClass_bases (r : Registry) (types : Interner) (c : ClassId)
    (info : ClassInfo) : (r.markClass types c info).bases = info.bases := by
  rcases markClass_cases r types c info with ⟨-, heq⟩ | ⟨shape, recursive, -, heq⟩ <;> rw [heq]

/-- Marking neither declares a shape nor takes one away. -/
@[simp] theorem isSome_shape_markClass (r : Registry) (types : Interner) (c : ClassId)
    (info : ClassInfo) : (r.markClass types c info).shape.isSome = info.shape.isSome := by
  rcases markClass_cases r types c info with ⟨-, heq⟩ | ⟨shape, recursive, hshape, heq⟩
  · rw [heq]
  · rw [heq, hshape]
    rfl

@[simp] theorem tupleShaped_markClass (r : Registry) (types : Interner) (c : ClassId)
    (info : ClassInfo) :
    (r.markClass types c info).flags.tupleShaped = info.flags.tupleShaped := by
  rcases markClass_cases r types c info with ⟨-, heq⟩ | ⟨shape, recursive, -, heq⟩ <;> rw [heq]

@[simp] theorem contains_markRecursion (r : Registry) (types : Interner) (c : ClassId) :
    (r.markRecursion types).contains c = r.contains c := by
  unfold contains
  rw [get?_markRecursion, Option.isSome_map]

/-- Setting marks leaves all type parameters as they are. -/
@[simp] theorem params_markRecursion (r : Registry) (types : Interner) (c : ClassId) :
    (r.markRecursion types).params c = r.params c := by
  unfold params
  rw [get?_markRecursion]
  cases r.get? c with
  | none => rfl
  | some info => exact markClass_params r types c info

/-- Setting marks leaves all base edges as they are. -/
@[simp] theorem bases_markRecursion (r : Registry) (types : Interner) (c : ClassId) :
    (r.markRecursion types).bases c = r.bases c := by
  unfold bases
  rw [get?_markRecursion]
  cases r.get? c with
  | none => rfl
  | some info => exact markClass_bases r types c info

/-- Marking sets all marks anew. -/
theorem shape?_markRecursion_eq (r : Registry) (types : Interner) (c : ClassId) :
    (r.markRecursion types).shape? c =
      (r.shape? c).map fun shape => { shape with isRecursive := r.isRecursiveShape types c } := by
  unfold shape?
  rw [get?_markRecursion]
  cases r.get? c with
  | none => rfl
  | some info =>
    rw [Option.map_some, Option.bind_some, Option.bind_some]
    unfold markClass
    cases hshape : info.shape with
    | none => exact hshape
    | some shape => rfl

/-- A shape after marking has the elements that it had before. -/
theorem shape?_markRecursion {types : Interner} {c : ClassId} {shape : TupleShape}
    (h : (r.markRecursion types).shape? c = some shape) :
    ∃ old, r.shape? c = some old ∧ old.elements = shape.elements := by
  rw [shape?_markRecursion_eq] at h
  obtain ⟨old, hold, rfl⟩ := Option.map_eq_some_iff.mp h
  exact ⟨old, hold, rfl⟩

end

/-- A class with a base edge is registered. -/
theorem get?_of_mem_bases {c : ClassId} {base : Instance} (h : base ∈ r.bases c) :
    ∃ info, r.get? c = some info ∧ base ∈ info.bases := by
  unfold bases at h
  cases hinfo : r.get? c with
  | none =>
    rw [hinfo] at h
    exact absurd h List.not_mem_nil
  | some info =>
    rw [hinfo] at h
    exact ⟨info, rfl, h⟩

/-- A registered class is one of the classes in the list. -/
theorem mem_classes_of_get? {c : ClassId} {info : ClassInfo} (h : r.get? c = some info) :
    info ∈ r.classes := by
  obtain ⟨n⟩ := c
  cases n with
  | zero => cases h
  | succ n => exact List.mem_of_getElem? h

/-! ## Ancestors -/

/-- `a` can be reached from `c` by one or more base edges. -/
def Ancestor (r : Registry) (c a : ClassId) : Prop :=
  TransGen (Search.Step r.parents) c a

/-- No class is its own ancestor. -/
def Acyclic (r : Registry) : Prop :=
  ∀ c, ¬ r.Ancestor c c

/-- The classes that base edges lead to, one for each edge. -/
def targets (r : Registry) : List ClassId :=
  r.classes.flatMap fun info => info.bases.map Instance.head

theorem length_targets (r : Registry) : r.targets.length = r.edgeCount := by
  unfold targets edgeCount
  rw [← List.length_map (f := Instance.head), List.map_flatMap]

/-- Every parent is the target of an edge. -/
theorem mem_targets {c a : ClassId} (h : a ∈ r.parents c) : a ∈ r.targets := by
  obtain ⟨base, hbase, rfl⟩ := List.mem_map.mp h
  obtain ⟨info, hinfo, hmem⟩ := get?_of_mem_bases hbase
  exact List.mem_flatMap.mpr ⟨info, mem_classes_of_get? hinfo, List.mem_map.mpr ⟨base, hmem, rfl⟩⟩

/-- What is reached from the parents of a class are its ancestors. -/
theorem reached_parents_iff {c a : ClassId} :
    Search.Reached r.parents (r.parents c) a ↔ r.Ancestor c a := by
  unfold Ancestor Search.Reached
  rw [TransGen.head'_iff]
  rfl

/-- The search decides ancestry. -/
theorem derives_iff {c a : ClassId} : r.derives c a = true ↔ r.Ancestor c a := by
  unfold derives
  rw [decide_eq_true_iff, ← reached_parents_iff]
  refine Search.mem_reachable_iff ?_ (Nat.le_of_eq r.length_targets)
  rintro x ⟨p, hp, path⟩
  cases path with
  | refl => exact mem_targets hp
  | tail _ hstep => exact mem_targets hstep

/-- The check for cycles refuses an edge from a class to itself or to one that derives from
it. -/
theorem wouldCycle_iff {child parent : ClassId} :
    r.wouldCycle child parent = true ↔ child = parent ∨ r.Ancestor parent child := by
  unfold wouldCycle
  rw [Bool.or_eq_true, decide_eq_true_iff, derives_iff]

/-- Ancestry depends on the base edges alone. -/
theorem Ancestor.mono (hsub : ∀ c, r.parents c ⊆ r'.parents c) {c a : ClassId}
    (h : r.Ancestor c a) : r'.Ancestor c a := by
  have hstep : ∀ x y, Search.Step r.parents x y → Search.Step r'.parents x y :=
    fun x _ h => hsub x h
  exact TransGen.mono hstep _ _ h

/-- Taking edges away makes no cycle. -/
theorem Acyclic.of_parents_subset (h : r'.Acyclic) (hsub : ∀ c, r.parents c ⊆ r'.parents c) :
    r.Acyclic :=
  fun c hc => h c (hc.mono hsub)

/-- What a new edge from `child` to `parent` adds: paths up to `child`, and on from `parent`. -/
theorem Ancestor.of_append {child parent : ClassId}
    (hsub : ∀ c a, a ∈ r'.parents c → a ∈ r.parents c ∨ c = child ∧ a = parent) {c a : ClassId}
    (h : r'.Ancestor c a) :
    r.Ancestor c a ∨
      ReflTransGen (Search.Step r.parents) c child ∧
        ReflTransGen (Search.Step r.parents) parent a := by
  induction h with
  | single hstep =>
    rcases hsub _ _ hstep with hold | ⟨rfl, rfl⟩
    · exact .inl (.single hold)
    · exact .inr ⟨.refl, .refl⟩
  | tail _ hstep ih =>
    rcases hsub _ _ hstep with hold | ⟨rfl, rfl⟩
    · -- an old edge
      rcases ih with hpath | ⟨hup, hon⟩
      · exact .inl (hpath.tail hold)
      · exact .inr ⟨hup, hon.tail hold⟩
    · -- the new edge, which may have been gone before
      rcases ih with hpath | ⟨hup, -⟩
      · exact .inr ⟨hpath.to_reflTransGen, .refl⟩
      · exact .inr ⟨hup, .refl⟩

/-- A new edge whose check finds no cycle makes none. -/
theorem Acyclic.append (h : r.Acyclic) {child parent : ClassId}
    (hcheck : r.wouldCycle child parent = false)
    (hsub : ∀ c a, a ∈ r'.parents c → a ∈ r.parents c ∨ c = child ∧ a = parent) : r'.Acyclic := by
  intro c hc
  rcases hc.of_append hsub with hold | ⟨hup, hon⟩
  · exact h c hold
  · -- a cycle through the new edge would lead from `parent` back to `child`
    have hback : child = parent ∨ r.Ancestor parent child := by
      rcases reflTransGen_iff_eq_or_transGen.mp (hon.trans hup) with heq | hpath
      · exact .inl heq
      · exact .inr hpath
    rw [← wouldCycle_iff, hcheck] at hback
    cases hback

/-! ## The built-in classes -/

/-- At the start there is one base edge, from `tuple` to `object`. -/
theorem bases_builtin (c : ClassId) :
    builtin.bases c = if c = .tuple then [.bare .object] else [] := by
  obtain ⟨n⟩ := c
  match n with
  | 0 => rfl
  | 1 => rfl
  | 2 => rfl
  | n + 3 =>
    rw [if_neg (by simp [ClassId.tuple])]
    rfl

theorem shape?_builtin (c : ClassId) : builtin.shape? c = none := by
  obtain ⟨n⟩ := c
  match n with
  | 0 => rfl
  | 1 => rfl
  | 2 => rfl
  | n + 3 => rfl

/-- At the start there are no cycles. -/
theorem acyclic_builtin : builtin.Acyclic := by
  -- the only edge leads from `tuple` to `object`
  have hancestor : ∀ c a, builtin.Ancestor c a → c = .tuple ∧ a = .object := by
    intro c a h
    have hstep : ∀ x y, Search.Step builtin.parents x y → x = .tuple ∧ y = .object := by
      intro x y hxy
      unfold Search.Step parents at hxy
      rw [bases_builtin] at hxy
      split at hxy
      · rename_i hx
        exact ⟨hx, List.mem_singleton.mp hxy⟩
      · exact absurd hxy List.not_mem_nil
    induction h with
    | single hxy => exact hstep _ _ hxy
    | tail _ hxy ih => exact ⟨ih.1, (hstep _ _ hxy).2⟩
  intro c hc
  obtain ⟨rfl, heq⟩ := hancestor c c hc
  cases heq

end Supertypes.Registry
