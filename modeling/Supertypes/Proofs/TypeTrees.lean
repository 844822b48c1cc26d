import Supertypes.Proofs.Constructed

/-!
# Expansion of trees

- `TypeTree`: a type with all that it is made of. `Interner.treeOf` is the tree that a handle
  stands for, and `TypeTree.build` builds a tree from the bottom up.
- `TypeTree.cut`, `TypeTree.goesDown` and `TypeTree.replace`: what expansion is on trees.
- `Interner.Does`: what an expansion does to the tables, and whether it raises the flag.
  `Substitution.does_expand` says that expanding a handle is building the tree in which
  parameters have been replaced.
- `Substitution.OnlyRaises`: an expansion does not depend on the flag.
- `Interner.Reached.expand_eq_build` puts this together for the tables that calls can reach, and
  `Interner.Reached.expand` says that expansion does not lead out of them.
-/

namespace Supertypes

/-! ## Trees -/

/-- A type with all that it is made of. A leaf is a handle that is taken as it is. -/
inductive TypeTree
  | leaf (id : TypeId)
  | param (p : Param)
  | inst (head : ClassId) (args : List TypeTree)
  | tuple (elements : List (Element TypeTree))
  | union (members : List TypeTree)

namespace TypeTree

/-- Put the error `Any` in the place of all that is no leaf and lies `levels` deep. -/
def cut : Nat → TypeTree → TypeTree
  | _, .leaf id => .leaf id
  | 0, _ => .leaf (.any .fromError)
  | _ + 1, .param p => .param p
  | levels + 1, .inst head args => .inst head (args.map (cut levels))
  | levels + 1, .tuple elements => .tuple (elements.map (Element.map (cut levels)))
  | levels + 1, .union members => .union (members.map (cut levels))

/-- There is something that is no leaf and lies `levels` deep. -/
def goesDown : Nat → TypeTree → Bool
  | _, .leaf _ => false
  | 0, _ => true
  | _ + 1, .param _ => false
  | levels + 1, .inst _ args => args.any (goesDown levels)
  | levels + 1, .tuple elements => elements.any fun e => goesDown levels e.item
  | levels + 1, .union members => members.any (goesDown levels)

mutual

/-- Put what is bound to them in the place of parameters, as it is. -/
def replace (s : Substitution) : TypeTree → TypeTree
  | .leaf id => .leaf id
  | .param p => (s.get? p.id).elim (.param p) .leaf
  | .inst head args => .inst head (replaceList s args)
  | .tuple elements => .tuple (replaceElements s elements)
  | .union members => .union (replaceList s members)

/-- Replace in each of several trees. -/
def replaceList (s : Substitution) : List TypeTree → List TypeTree
  | [] => []
  | tree :: rest => tree.replace s :: replaceList s rest

/-- Replace in each of several elements. -/
def replaceElements (s : Substitution) : List (Element TypeTree) → List (Element TypeTree)
  | [] => []
  | ⟨tree, isRest⟩ :: rest => ⟨tree.replace s, isRest⟩ :: replaceElements s rest

end

mutual

/-- Build the type from the bottom up. Unions are joined anew. -/
def build [Digest TypeData] : TypeTree → Interning TypeId
  | .leaf id => pure id
  | .param p => Interner.param p
  | .inst head args => do Interner.instType head (← buildList args)
  | .tuple elements => do Interner.tuple (← buildElements elements)
  | .union members => do Interner.union (← buildList members)

/-- Build each of several types. -/
def buildList [Digest TypeData] : List TypeTree → Interning (List TypeId)
  | [] => return []
  | tree :: rest => return (← tree.build) :: (← buildList rest)

/-- Build each of several elements. -/
def buildElements [Digest TypeData] : List (Element TypeTree) → Interning (List (Element TypeId))
  | [] => return []
  | ⟨tree, isRest⟩ :: rest => return ⟨← tree.build, isRest⟩ :: (← buildElements rest)

end

theorem replaceList_eq (s : Substitution) (trees : List TypeTree) :
    replaceList s trees = trees.map (replace s) := by
  induction trees with
  | nil => rfl
  | cons tree rest ih => rw [replaceList, ih, List.map_cons]

theorem replaceElements_eq (s : Substitution) (elements : List (Element TypeTree)) :
    replaceElements s elements = elements.map (Element.map (replace s)) := by
  induction elements with
  | nil => rfl
  | cons e rest ih => rw [replaceElements, ih, List.map_cons, Element.map]

theorem buildList_eq [Digest TypeData] (trees : List TypeTree) :
    buildList trees = trees.mapM build := by
  induction trees with
  | nil => rfl
  | cons tree rest ih => rw [buildList, ih, List.mapM_cons]

theorem buildElements_eq [Digest TypeData] (elements : List (Element TypeTree)) :
    buildElements elements = elements.mapM fun e => return ⟨← e.item.build, e.isRest⟩ := by
  induction elements with
  | nil => rfl
  | cons e rest ih =>
    rw [buildElements, ih, List.mapM_cons, bind_assoc]
    rfl

/-- All but a leaf is too deep where no level is left. -/
theorem cut_zero {tree : TypeTree} (h : ∀ id, tree ≠ .leaf id) :
    tree.cut 0 = .leaf (.any .fromError) ∧ tree.goesDown 0 = true := by
  cases tree with
  | leaf id => exact absurd rfl (h id)
  | param p => exact ⟨rfl, rfl⟩
  | inst head args => exact ⟨rfl, rfl⟩
  | tuple elements => exact ⟨rfl, rfl⟩
  | union members => exact ⟨rfl, rfl⟩

/-- All leaves of the tree are among the handles. -/
inductive LeavesIn (handles : TypeId → Prop) : TypeTree → Prop
  | leaf {id : TypeId} (h : handles id) : LeavesIn handles (.leaf id)
  | param (p : Param) : LeavesIn handles (.param p)
  | inst {head : ClassId} {args : List TypeTree} (h : ∀ a ∈ args, LeavesIn handles a) :
    LeavesIn handles (.inst head args)
  | tuple {elements : List (Element TypeTree)} (h : ∀ e ∈ elements, LeavesIn handles e.item) :
    LeavesIn handles (.tuple elements)
  | union {members : List TypeTree} (h : ∀ m ∈ members, LeavesIn handles m) :
    LeavesIn handles (.union members)

namespace LeavesIn

variable {handles : TypeId → Prop} {tree : TypeTree}

/-- Cutting a tree brings in no leaf but the error `Any`. -/
theorem cut (h : LeavesIn handles tree) (herror : handles (.any .fromError)) (levels : Nat) :
    LeavesIn handles (tree.cut levels) := by
  induction h generalizing levels with
  | leaf h =>
    cases levels <;> exact .leaf h
  | param p =>
    cases levels with
    | zero => exact .leaf herror
    | succ levels => exact .param p
  | inst _ ih =>
    cases levels with
    | zero => exact .leaf herror
    | succ levels => exact .inst (List.forall_mem_map.mpr fun a ha => ih a ha levels)
  | tuple _ ih =>
    cases levels with
    | zero => exact .leaf herror
    | succ levels => exact .tuple (List.forall_mem_map.mpr fun e he => ih e he levels)
  | union _ ih =>
    cases levels with
    | zero => exact .leaf herror
    | succ levels => exact .union (List.forall_mem_map.mpr fun m hm => ih m hm levels)

/-- Replacing parameters brings in no leaf but what they are replaced by. -/
theorem replace (h : LeavesIn handles tree) {s : Substitution}
    (hs : ∀ p id, s.get? p = some id → handles id) : LeavesIn handles (tree.replace s) := by
  induction h with
  | leaf h =>
    rw [TypeTree.replace]
    exact .leaf h
  | param p =>
    rw [TypeTree.replace]
    cases hbound : s.get? p.id with
    | none => exact .param p
    | some id => exact .leaf (hs p.id id hbound)
  | inst _ ih =>
    rw [TypeTree.replace, replaceList_eq]
    exact .inst (List.forall_mem_map.mpr ih)
  | tuple _ ih =>
    rw [TypeTree.replace, replaceElements_eq]
    exact .tuple (List.forall_mem_map.mpr ih)
  | union _ ih =>
    rw [TypeTree.replace, replaceList_eq]
    exact .union (List.forall_mem_map.mpr ih)

end LeavesIn

mutual

/-- Building a tree adds to the tables and takes nothing away. -/
theorem grows_build [Digest TypeData] : ∀ tree : TypeTree, Interner.Grows tree.build
  | .leaf id => .pure id
  | .param p => by
    rw [build]
    infer_instance
  | .inst head args => by
    have := grows_buildList args
    rw [build]
    unfold Interner.instType
    infer_instance
  | .tuple elements => by
    have := grows_buildElements elements
    rw [build]
    infer_instance
  | .union members => by
    have := grows_buildList members
    rw [build]
    infer_instance

theorem grows_buildList [Digest TypeData] :
    ∀ trees : List TypeTree, Interner.Grows (buildList trees)
  | [] => .pure []
  | tree :: rest => by
    have := grows_build tree
    have := grows_buildList rest
    rw [buildList]
    infer_instance

theorem grows_buildElements [Digest TypeData] :
    ∀ elements : List (Element TypeTree), Interner.Grows (buildElements elements)
  | [] => .pure []
  | ⟨tree, isRest⟩ :: rest => by
    have := grows_build tree
    have := grows_buildElements rest
    rw [buildElements]
    infer_instance

end

instance [Digest TypeData] (tree : TypeTree) : Interner.Grows tree.build :=
  grows_build tree

end TypeTree

namespace Interner

variable {t t' : Interner} {id : TypeId}

/-! ## Reading trees -/

section

variable [Digest TypeData]

/-- The tree of a handle, with `sub` for the trees of what it is made of. -/
def treeOnce (t : Interner) (sub : TypeId → TypeTree) (id : TypeId) : TypeTree :=
  match t.lookup id with
  | some (.param p) => .param p
  | some (.inst i) => .inst i.head ((t.args i).map sub)
  | some (.tuple list) => .tuple ((t.elementList list).map (Element.map sub))
  | some (.union list) => .union ((t.typeList list).map sub)
  | some .never | some (.any _) | none => .leaf id

/-- The tree of a handle, read down to some depth. -/
def treeTo (t : Interner) : Nat → TypeId → TypeTree
  | 0, id => .leaf id
  | depth + 1, id => t.treeOnce (t.treeTo depth) id

/-- The tree of a handle. No type goes deeper than there are structures in the table. -/
def treeOf (t : Interner) (id : TypeId) : TypeTree :=
  t.treeTo (t.size + 1) id

/-- The tree of a handle depends on the trees of its children only. -/
theorem treeOnce_congr {sub sub' : TypeId → TypeTree} (h : ∀ c ∈ t.children id, sub c = sub' c) :
    t.treeOnce sub id = t.treeOnce sub' id := by
  unfold treeOnce
  split
  · rfl
  · rename_i i hdata
    rw [children_of_lookup hdata] at h
    have hargs : ∀ a ∈ t.args i, sub a = sub' a := h
    rw [List.map_congr_left hargs]
  · rename_i list hdata
    rw [children_of_lookup hdata] at h
    have hitems : ∀ e ∈ t.elementList list, e.map sub = e.map sub' := fun e he =>
      congrArg (fun item => (⟨item, e.isRest⟩ : Element TypeTree)) (h _ (List.mem_map_of_mem he))
    rw [List.map_congr_left hitems]
  · rename_i list hdata
    rw [children_of_lookup hdata] at h
    have hmembers : ∀ m ∈ t.typeList list, sub m = sub' m := h
    rw [List.map_congr_left hmembers]
  · rfl
  · rfl
  · rfl

/-- Below the bottom of a type there is nothing more to read. -/
theorem treeTo_eq {rank : TypeId → Nat} (hrank : ∀ id, ∀ c ∈ t.children id, rank c < rank id)
    {depth depth' : Nat} (hdepth : rank id < depth) (hdepth' : rank id < depth') :
    t.treeTo depth id = t.treeTo depth' id := by
  induction depth generalizing id depth' with
  | zero => omega
  | succ depth ih =>
    cases depth' with
    | zero => omega
    | succ depth' =>
      refine treeOnce_congr fun c hc => ?_
      have hless := hrank id c hc
      exact ih (by omega) (by omega)

/-- The tree of a handle is made of the trees of what the handle is made of. -/
theorem WellFormed.treeOf_eq (hwf : t.WellFormed) : t.treeOf id = t.treeOnce t.treeOf id := by
  obtain ⟨rank, hrank⟩ := hwf.ranked
  refine treeOnce_congr fun c hc => ?_
  have hless := (hrank id).2 c hc
  have hbound := (hrank id).1
  exact treeTo_eq (fun id => (hrank id).2) (by omega) (by omega)

/-- An intrinsic handle is a leaf. -/
theorem treeOnce_of_intrinsic (h : id.isIntrinsic = true) (sub : TypeId → TypeTree) :
    t.treeOnce sub id = .leaf id := by
  unfold treeOnce
  cases hdata : t.lookup id with
  | none => rfl
  | some data =>
    rcases data_of_intrinsic h hdata with rfl | ⟨reason, rfl⟩
    · rfl
    · rfl

/-- Nothing else is a leaf. -/
theorem Proper.treeOnce_ne_leaf {V : Vocabulary} (h : t.Proper V id)
    (huser : id.isIntrinsic = false) (sub : TypeId → TypeTree) (x : TypeId) :
    t.treeOnce sub id ≠ .leaf x := by
  unfold treeOnce
  cases h with
  | leaf hintrinsic => exact absurd hintrinsic (Bool.eq_false_iff.mp huser)
  | param hdata => simp [hdata]
  | inst hdata => simp [hdata]
  | tuple hdata => simp [hdata]
  | union hdata => simp [hdata]

end

/-! ## What an expansion does -/

variable {α β : Type}

/-- From `t` on the expansion does to the tables what `y` does, answers what `y` answers, and
raises the flag just if something is too deep. -/
def Does (t : Interner) (x : Expanding α) (y : Interning α) (deep : Bool) : Prop :=
  ∀ flag t', t ≤ t' → (x.run flag).run t' = (((y.run t').1, flag || deep), (y.run t').2)

namespace Does

variable {x : Expanding α} {y : Interning α} {deep deep' : Bool}

theorem pure (t : Interner) (a : α) : Does t (pure a) (pure a) false := by
  intro flag t' _
  rw [Bool.or_false]
  rfl

/-- Reading the tables changes nothing, if what is done next does not depend on later
additions. -/
theorem read {k : Interner → Expanding α} (hk : ∀ t', t ≤ t' → k t' = k t)
    (h : Does t (k t) y deep) : Does t (getThe Interner >>= k) y deep := by
  intro flag t' hle
  show ((k t').run flag).run t' = _
  rw [hk t' hle]
  exact h flag t' hle

/-- Two actions, one after the other; the flag says if either was too deep. -/
theorem bind [Grows y] {f : α → Expanding β} {g : α → Interning β} (hx : Does t x y deep)
    (hf : ∀ a, Does t (f a) (g a) deep') : Does t (x >>= f) (y >>= g) (deep || deep') := by
  intro flag t' hle
  have hnext := hf (y.run t').1 (flag || deep) (y.run t').2
    (Interner.le_trans hle (Grows.le_run t'))
  show ((f ((x.run flag).run t').1.1).run ((x.run flag).run t').1.2).run ((x.run flag).run t').2 = _
  rw [hx flag t' hle, hnext, Bool.or_assoc]
  rfl

/-- What comes next never raises the flag. -/
theorem bind_shallow [Grows y] {f : α → Expanding β} {g : α → Interning β} (hx : Does t x y deep)
    (hf : ∀ a, Does t (f a) (g a) false) : Does t (x >>= f) (y >>= g) deep := by
  rw [← Bool.or_false deep]
  exact hx.bind hf

/-- Nothing need be built where it is known what would be answered. -/
theorem of_fixed {a : α} (h : Fixed t y a) : Does t (Pure.pure a) y false := by
  intro flag t' hle
  rw [h t' hle, Bool.or_false]
  rfl

/-- An action may be left out where it is known what it would answer. -/
theorem skip {c : Prop} [Decidable c] {a : α} (h : c → Fixed t y a) :
    Does t (if c then Pure.pure a else monadLift y) y false := by
  split
  · rename_i hc
    exact of_fixed (h hc)
  · intro flag t' _
    rw [Bool.or_false]
    rfl

/-- Along a list the flag says if anything was too deep. -/
theorem mapM {f : α → Expanding β} {g : α → Interning β} [∀ a, Grows (g a)] {deep : α → Bool}
    {xs : List α} (h : ∀ a ∈ xs, Does t (f a) (g a) (deep a)) :
    Does t (xs.mapM f) (xs.mapM g) (xs.any deep) := by
  induction xs with
  | nil => exact .pure t []
  | cons a xs ih =>
    rw [List.mapM_cons, List.mapM_cons, List.any_cons]
    refine (h a List.mem_cons_self).bind fun b => ?_
    have hrest := ih fun a' ha' => h a' (List.mem_cons_of_mem _ ha')
    exact hrest.bind_shallow fun bs => .pure t _

end Does

end Interner

/-! ## Expanding a handle -/

namespace Substitution

open Interner

variable {s : Substitution} {t : Interner} {id : TypeId} {f : TypeId → Expanding TypeId}
  {g : TypeId → Interning TypeId} [∀ a, Grows (g a)] {deep : TypeId → Bool}

section

variable [Digest TypeData]

/-- Expanding an instance is building it from its expanded arguments. -/
theorem does_mapInstance (hwf : t.WellFormed) {i : Instance} (hi : t.IssuedList i.args)
    (h : ∀ a ∈ t.args i, t.Does (f a) (g a) (deep a)) :
    t.Does (mapInstance f i) (do Interner.apply i.head (← (t.args i).mapM g))
      ((t.args i).any deep) := by
  refine .read (fun t' hle => by rw [hi.args_eq hle]) ?_
  refine (Does.mapM h).bind_shallow fun args => .skip fun heq => ?_
  rw [heq]
  exact fixed_apply hwf hi

omit [Digest TypeData] in
/-- Expanding tuple elements is building them from their expanded items. -/
theorem does_mapElements {elements : List (Element TypeId)}
    (h : ∀ c ∈ elements.map Element.item, t.Does (f c) (g c) (deep c)) :
    t.Does (mapElements f elements) (elements.mapM fun e => return ⟨← g e.item, e.isRest⟩)
      (elements.any fun e => deep e.item) := by
  refine Does.mapM fun e he => ?_
  exact (h e.item (List.mem_map_of_mem he)).bind_shallow fun item => .pure t _

section Structures

variable (s : Substitution) (levels : Nat) (sub : TypeId → TypeTree)

theorem buildList_expanded (ids : List TypeId) :
    TypeTree.buildList (TypeTree.replaceList s ((ids.map sub).map (TypeTree.cut levels))) =
      ids.mapM fun id => (((sub id).cut levels).replace s).build := by
  rw [TypeTree.buildList_eq, TypeTree.replaceList_eq, List.mapM_map, List.mapM_map, List.mapM_map]
  rfl

theorem buildElements_expanded (elements : List (Element TypeId)) :
    TypeTree.buildElements (TypeTree.replaceElements s
      ((elements.map (Element.map sub)).map (Element.map (TypeTree.cut levels)))) =
      elements.mapM fun e => return ⟨← (((sub e.item).cut levels).replace s).build, e.isRest⟩ := by
  rw [TypeTree.buildElements_eq, TypeTree.replaceElements_eq, List.mapM_map, List.mapM_map,
    List.mapM_map]
  rfl

end Structures

/-- Expanding a handle is building its tree anew, with what is bound in the place of parameters
and with errors in the place of what is too deep. -/
theorem does_expand (hwf : t.WellFormed) (hreg : t.Regular) (hid : t.Issued id) (levels : Nat) :
    t.Does (s.expand levels id) (((t.treeOf id).cut levels).replace s).build
      ((t.treeOf id).goesDown levels) := by
  have hproper := hreg.proper hwf hid
  induction levels generalizing id with
  | zero =>
    rw [hwf.treeOf_eq]
    unfold expand
    split
    · rename_i hintrinsic
      rw [treeOnce_of_intrinsic hintrinsic]
      exact .pure t id
    · rename_i huser
      obtain ⟨hcut, hdeep⟩ := TypeTree.cut_zero
        (hproper.treeOnce_ne_leaf (Bool.eq_false_iff.mpr huser) t.treeOf)
      rw [hcut, hdeep]
      intro flag t' _
      rw [Bool.or_true]
      rfl
  | succ levels ih =>
    cases hintrinsic : id.isIntrinsic with
    | true =>
      rw [expand_of_intrinsic hintrinsic, hwf.treeOf_eq, treeOnce_of_intrinsic hintrinsic]
      exact .pure t id
    | false =>
      -- one level down
      have hchild : ∀ c ∈ t.children id, t.Does (s.expand levels c)
          (((t.treeOf c).cut levels).replace s).build ((t.treeOf c).goesDown levels) := by
        intro c hc
        have hissued := hwf.issued_of_mem_children hc
        exact ih hissued (hreg.proper hwf hissued)
      rw [expand_succ hintrinsic, hwf.treeOf_eq]
      refine .read (fun t' hle => expandOnce_eq hwf hid hle) ?_
      unfold expandOnce treeOnce
      cases hproper with
      | leaf hleaf => exact absurd hleaf (Bool.eq_false_iff.mp hintrinsic)
      | param hdata =>
        rename_i p _
        rw [hdata]
        dsimp only [TypeTree.cut, TypeTree.replace, TypeTree.goesDown]
        cases s.get? p.id with
        | none => exact .of_fixed (fixed_param hwf hdata)
        | some value => exact .pure t value
      | inst hdata =>
        rename_i i _ _
        rw [children_of_lookup hdata] at hchild
        rw [hdata]
        dsimp only [TypeTree.cut, TypeTree.replace, TypeTree.goesDown]
        rw [TypeTree.build, buildList_expanded, List.any_map]
        have hmap := does_mapInstance hwf (hwf.issuedData_of_lookup hdata) hchild
        exact hmap.bind_shallow fun expanded => .skip fun heq => heq ▸ fixed_inst hwf hdata
      | tuple hdata =>
        rename_i list _
        rw [children_of_lookup hdata] at hchild
        rw [hdata]
        dsimp only [TypeTree.cut, TypeTree.replace, TypeTree.goesDown]
        rw [TypeTree.build, buildElements_expanded, List.any_map]
        have hmap := does_mapElements hchild
        exact hmap.bind_shallow fun expanded => .skip fun heq => heq ▸ fixed_tuple hwf hdata
      | union hdata hnormal =>
        rename_i list _
        rw [children_of_lookup hdata] at hchild
        rw [hdata]
        dsimp only [TypeTree.cut, TypeTree.replace, TypeTree.goesDown]
        rw [TypeTree.build, buildList_expanded, List.any_map]
        have hmap := Does.mapM hchild
        exact hmap.bind_shallow fun expanded => .skip fun heq =>
          fixed_union hwf hdata hnormal (heq ▸ .refl _)

end

/-! ## The flag -/

section Flag

variable {α β : Type}

/-- What the expansion does does not depend on the flag, which is raised or left as it is. -/
class OnlyRaises (x : Expanding α) : Prop where
  run_eq (flag : Bool) : x.run flag = (fun r => (r.1, flag || r.2)) <$> x.run false

namespace OnlyRaises

instance pure (a : α) : OnlyRaises (Pure.pure a : Expanding α) :=
  ⟨fun flag => by simp⟩

instance lift (y : Interning α) : OnlyRaises (monadLift y : Expanding α) :=
  ⟨fun flag => by simp⟩

instance read : OnlyRaises (getThe Interner : Expanding Interner) :=
  lift get

instance bind (x : Expanding α) (f : α → Expanding β) [hx : OnlyRaises x]
    [hf : ∀ a, OnlyRaises (f a)] : OnlyRaises (x >>= f) := by
  refine ⟨fun flag => ?_⟩
  rw [StateT.run_bind, StateT.run_bind, hx.run_eq flag, bind_map_left, map_bind]
  refine bind_congr fun r => ?_
  rw [(hf r.1).run_eq (flag || r.2), (hf r.1).run_eq r.2, Functor.map_map]
  simp only [Bool.or_assoc]

instance mapM (f : α → Expanding β) [∀ a, OnlyRaises (f a)] (xs : List α) :
    OnlyRaises (xs.mapM f) := by
  induction xs with
  | nil => exact .pure []
  | cons a xs ih =>
    rw [List.mapM_cons]
    infer_instance

instance ite (c : Prop) [Decidable c] (x y : Expanding α) [hx : OnlyRaises x]
    [hy : OnlyRaises y] : OnlyRaises (if c then x else y) := by
  split
  · exact hx
  · exact hy

/-- Several expansions with one flag are the same as each with a flag of its own. -/
theorem mapM_run (f : α → Expanding β) [hf : ∀ a, OnlyRaises (f a)] (xs : List α) :
    (xs.mapM f).run false =
      (fun rs => (rs.map Prod.fst, rs.any Prod.snd)) <$> xs.mapM fun a => (f a).run false := by
  induction xs with
  | nil => simp
  | cons a xs ih =>
    rw [List.mapM_cons, List.mapM_cons, StateT.run_bind, map_bind]
    refine bind_congr fun r => ?_
    rw [StateT.run_bind, (mapM f xs).run_eq r.2, ih]
    simp

end OnlyRaises

instance onlyRaises_mapInstance (f : TypeId → Expanding TypeId) [∀ a, OnlyRaises (f a)]
    (i : Instance) : OnlyRaises (mapInstance f i) := by
  unfold mapInstance
  dsimp only
  infer_instance

instance onlyRaises_mapElements (f : TypeId → Expanding TypeId) [∀ a, OnlyRaises (f a)]
    (elements : List (Element TypeId)) : OnlyRaises (mapElements f elements) := by
  unfold mapElements
  infer_instance

instance onlyRaises_expand [Digest TypeData] (s : Substitution) (levels : Nat) (id : TypeId) :
    OnlyRaises (s.expand levels id) := by
  induction levels generalizing id with
  | zero =>
    unfold expand
    refine @OnlyRaises.ite _ _ _ _ _ _ ⟨fun flag => ?_⟩
    simp
  | succ levels ih =>
    cases hintrinsic : id.isIntrinsic with
    | true =>
      rw [expand_of_intrinsic hintrinsic]
      infer_instance
    | false =>
      rw [expand_succ hintrinsic]
      have hstep : ∀ types, OnlyRaises (s.expandOnce levels types id) := by
        intro types
        unfold expandOnce
        split <;> infer_instance
      infer_instance

end Flag

end Substitution

/-! ## In the tables that calls can reach -/

namespace Interner

section

variable [Digest TypeData] {α β : Type} {t : Interner} {id : TypeId}

/-- The leaves of the tree of an issued handle have been issued. -/
theorem WellFormed.leavesIn_treeTo (hwf : t.WellFormed) (hid : t.Issued id) (depth : Nat) :
    (t.treeTo depth id).LeavesIn t.Issued := by
  induction depth generalizing id with
  | zero => exact .leaf hid
  | succ depth ih =>
    have hchild : ∀ c ∈ t.children id, (t.treeTo depth c).LeavesIn t.Issued := fun c hc =>
      ih (hwf.issued_of_mem_children hc)
    unfold treeTo treeOnce
    split
    · exact .param _
    · rename_i hdata
      rw [children_of_lookup hdata] at hchild
      exact .inst (List.forall_mem_map.mpr hchild)
    · rename_i hdata
      rw [children_of_lookup hdata] at hchild
      exact .tuple (List.forall_mem_map.mpr fun e he => hchild e.item (List.mem_map_of_mem he))
    · rename_i hdata
      rw [children_of_lookup hdata] at hchild
      exact .union (List.forall_mem_map.mpr hchild)
    · exact .leaf hid
    · exact .leaf hid
    · exact .leaf hid

/-- From reached tables that extend `t` the action leads to reached tables, with an answer that
`good` holds of. -/
def StaysReached (t : Interner) (x : Interning α) (good : Interner → α → Prop) : Prop :=
  ∀ t', t ≤ t' → Reached t' → Reached (x.run t').2 ∧ good (x.run t').2 (x.run t').1

namespace StaysReached

/-- A call with issued operands keeps the tables reached. -/
theorem call {c : Call} (hc : ∀ x ∈ c.operands, t.Issued x) :
    StaysReached t c.build Issued := by
  intro t' hle ht'
  have hc' : ∀ x ∈ c.operands, t'.Issued x := fun x hx => (hc x hx).of_le hle
  obtain ⟨hwf, hreg⟩ := ht'.wellFormed_regular
  exact ⟨ht'.build c hc', (hreg.build hwf hc').post.1⟩

/-- Two actions, one after the other. -/
theorem bind {x : Interning α} [Grows x] {f : α → Interning β} {good : Interner → α → Prop}
    {good' : Interner → β → Prop} (hx : StaysReached t x good)
    (hf : ∀ a t', t ≤ t' → good t' a → StaysReached t' (f a) good') :
    StaysReached t (x >>= f) good' := by
  intro t' hle ht'
  obtain ⟨hreached, hgood⟩ := hx t' hle ht'
  exact hf _ _ (Interner.le_trans hle (Grows.le_run t')) hgood _ (Interner.le_refl _) hreached

/-- Actions along a list, whose answers stay good as the tables grow. -/
theorem mapM {f : α → Interning β} [∀ a, Grows (f a)] {good : Interner → β → Prop}
    (hgood : ∀ b t t', t ≤ t' → good t b → good t' b) {xs : List α}
    (h : ∀ a ∈ xs, StaysReached t (f a) good) :
    StaysReached t (xs.mapM f) fun t' bs => ∀ b ∈ bs, good t' b := by
  induction xs generalizing t with
  | nil => exact fun t' _ ht' => ⟨ht', fun _ hb => absurd hb List.not_mem_nil⟩
  | cons a xs ih =>
    rw [List.mapM_cons]
    refine (h a List.mem_cons_self).bind fun b t₁ hle₁ hb => ?_
    have hrest : ∀ c ∈ xs, StaysReached t₁ (f c) good := fun c hc t' hle =>
      h c (List.mem_cons_of_mem _ hc) t' (Interner.le_trans hle₁ hle)
    refine (ih hrest).bind fun bs t₂ hle₂ hbs => ?_
    intro t' hle ht'
    refine ⟨ht', List.forall_mem_cons.mpr ⟨?_, fun c hc => ?_⟩⟩
    · exact hgood b _ _ (Interner.le_trans hle₂ hle) hb
    · exact hgood c _ _ hle (hbs c hc)

/-- Building a tree is a sequence of calls. -/
theorem build {tree : TypeTree} (h : tree.LeavesIn t.Issued) :
    StaysReached t tree.build Issued := by
  have hlasting : ∀ (id : TypeId) (t t' : Interner), t ≤ t' → t.Issued id → t'.Issued id :=
    fun _ _ _ hle h => h.of_le hle
  induction h with
  | leaf h =>
    rw [TypeTree.build]
    exact fun t' hle ht' => ⟨ht', h.of_le hle⟩
  | param p =>
    rw [TypeTree.build]
    exact call (c := .param p) fun _ hx => absurd hx List.not_mem_nil
  | @inst head args _ ih =>
    rw [TypeTree.build, TypeTree.buildList_eq]
    exact (mapM hlasting ih).bind fun ids t' _ hids => call (c := .inst head ids) hids
  | @tuple elements _ ih =>
    rw [TypeTree.build, TypeTree.buildElements_eq]
    have helement : ∀ e ∈ elements, StaysReached t
        (do return (⟨← e.item.build, e.isRest⟩ : Element TypeId)) fun t' e => t'.Issued e.item :=
      fun e he => (ih e he).bind fun id t' _ hid t'' hle ht'' => ⟨ht'', hid.of_le hle⟩
    exact (mapM (fun e => hlasting e.item) helement).bind fun es t' _ hes =>
      call (c := .tuple es) (List.forall_mem_map.mpr hes)
  | @union members _ ih =>
    rw [TypeTree.build, TypeTree.buildList_eq]
    exact (mapM hlasting ih).bind fun ids t' _ hids => call (c := .union ids) hids

end StaysReached

/-- Expansion does not lead out of the tables that calls can reach. -/
theorem Reached.expand {s : Substitution} (ht : Reached t) (hs : s.Issued t) (hid : t.Issued id)
    (levels : Nat) (flag : Bool) : Reached (((s.expand levels id).run flag).run t).2 := by
  obtain ⟨hwf, hreg⟩ := ht.wellFormed_regular
  rw [Substitution.does_expand hwf hreg hid levels flag t t.le_refl]
  have hleaves := (hwf.leavesIn_treeTo hid (t.size + 1)).cut (issued_any .fromError) levels
  exact (StaysReached.build (hleaves.replace hs) t t.le_refl ht).1

/-- Expanding an issued handle answers the handle of its tree in which values have taken the
place of parameters and errors the place of what is too deep, and raises the flag just if
something is. Handles that are expanded one after the other are expanded as each would be on its
own. -/
theorem Reached.expand_eq_build (ht : Reached t) (s : Substitution) :
    (∀ id, t.Issued id → ∀ flag,
      let tree := t.treeOf id
      let built := ((tree.cut Limits.expansion).replace s).build.run t
      ((s.expand Limits.expansion id).run flag).run t =
        ((built.1, flag || tree.goesDown Limits.expansion), built.2)) ∧
    ∀ ids, s.expandAll ids = (fun answers => (answers.map Prod.fst, answers.any Prod.snd)) <$>
      ids.mapM fun id => (s.expand Limits.expansion id).run false := by
  obtain ⟨hwf, hreg⟩ := ht.wellFormed_regular
  constructor
  · intro id hid flag
    exact Substitution.does_expand hwf hreg hid Limits.expansion flag t t.le_refl
  · intro ids
    exact Substitution.OnlyRaises.mapM_run (s.expand Limits.expansion) ids

end

/-- `T | U` with `U` for `T`. -/
theorem paramsJoined_expand_eq_build :
    (((Substitution.expand ⟨[(⟨2⟩, ⟨46⟩)]⟩ Limits.expansion ⟨32⟩).run false).run paramsJoined).1 =
      (⟨46⟩, false) := by
  have hbuilt := (reached_paramsJoined.expand_eq_build ⟨[(⟨2⟩, ⟨46⟩)]⟩).1 ⟨32⟩
    (by decide +kernel) false
  rw [hbuilt]
  decide +kernel

end Interner

end Supertypes
