import Mathlib.Data.List.Sort
import Mathlib.Data.String.Basic
import Supertypes.Proofs.RoundTrip

/-!
# Types up to renaming

Types of two tables that differ in the identities of classes and type parameters, and in their
handles.

- `Renaming`: the counterparts of classes and of type parameters.
- `Interner.Same`: types that are the same up to a renaming. The members of unions correspond
  whatever their order. `Interner.same_iff` says so one level deep, `Interner.Same.induct` is the
  induction over both types.
- `Interner.Same.unique`: a type has one counterpart.
- `Interner.Same.mentionsParam_eq` and `Interner.Same.mem_classes`: counterparts mention
  counterparts.
- `Interner.Same.classes`: for types without type parameters it does not matter which of those
  are counterparts.
- `TypePrinter.typeText_eq`: counterparts have one text, if they are called the same.
-/

namespace Supertypes

/-! ## Lists in step -/

/-- Lists are related just if they are of one length and related place by place. -/
theorem forall₂_iff_getElem? {α β : Type} {R : α → β → Prop} {xs : List α} {ys : List β} :
    List.Forall₂ R xs ys ↔
      xs.length = ys.length ∧ ∀ (n : Nat) x y, xs[n]? = some x → ys[n]? = some y → R x y := by
  constructor
  · intro h
    refine ⟨h.length_eq, ?_⟩
    induction h with
    | nil => simp
    | cons hxy _ ih =>
      rintro (_ | n) x y hx hy
      · exact Option.some.inj hx ▸ Option.some.inj hy ▸ hxy
      · exact ih n x y hx hy
  · rintro ⟨hlength, h⟩
    induction xs generalizing ys with
    | nil => exact List.length_eq_zero_iff.mp hlength.symm ▸ .nil
    | cons x xs ih =>
      obtain _ | ⟨y, ys⟩ := ys
      · cases hlength
      · exact .cons (h 0 x y rfl rfl)
          (ih (Nat.succ.inj hlength) fun n x y hx hy => h (n + 1) x y hx hy)

/-- A relation between members may use that they are members. -/
theorem forall₂_imp_mem {α β : Type} {R S : α → β → Prop} {xs : List α} {ys : List β}
    (h : List.Forall₂ R xs ys) (hRS : ∀ x ∈ xs, ∀ y ∈ ys, R x y → S x y) :
    List.Forall₂ S xs ys := by
  induction h with
  | nil => exact .nil
  | cons hxy _ ih =>
    exact .cons (hRS _ List.mem_cons_self _ List.mem_cons_self hxy) (ih fun x hx y hy =>
      hRS x (List.mem_cons_of_mem _ hx) y (List.mem_cons_of_mem _ hy))

/-- Lists in step with one list are equal, if its entries have one counterpart each. -/
theorem eq_of_forall₂ {α β : Type} {R : α → β → Prop} {xs : List α} {ys zs : List β}
    (hys : List.Forall₂ (fun x y => ∀ z, R x z → y = z) xs ys) (hzs : List.Forall₂ R xs zs) :
    ys = zs := by
  induction hys generalizing zs with
  | nil =>
    cases hzs
    rfl
  | cons hy _ ih =>
    cases hzs with
    | cons hz hzs => rw [hy _ hz, ih hzs]

/-- Lists in step are equal together, if related entries are. -/
theorem eq_iff_of_forall₂ {α β : Type} {R : α → β → Prop}
    (hR : ∀ {x x' y y'}, R x x' → R y y' → (x = y ↔ x' = y')) {xs ys : List α} {xs' ys' : List β}
    (hxs : List.Forall₂ R xs xs') (hys : List.Forall₂ R ys ys') : xs = ys ↔ xs' = ys' := by
  induction hxs generalizing ys ys' with
  | nil =>
    cases hys with
    | nil => simp
    | cons => simp
  | cons hx _ ih =>
    cases hys with
    | nil => simp
    | cons hy hys => rw [List.cons.injEq, List.cons.injEq, hR hx hy, ih hys]

/-- Of lists in step, the first entries that pass a test are in step. -/
theorem rel_find? {α β : Type} {R : α → β → Prop} {xs : List α} {ys : List β}
    (hxs : List.Forall₂ R xs ys) {test : α → Bool} {test' : β → Bool}
    (htest : ∀ x y, R x y → test x = test' y) :
    Option.Rel R (xs.find? test) (ys.find? test') := by
  induction hxs with
  | nil => exact .none
  | @cons x y xs ys hxy _ ih =>
    rw [List.find?_cons, List.find?_cons, ← htest x y hxy]
    cases test x with
    | true => exact .some hxy
    | false => exact ih

/-- Related options stay related under functions that keep the relation. -/
theorem rel_map {α β γ δ : Type} {R : α → β → Prop} {S : γ → δ → Prop} {f : α → γ} {g : β → δ}
    (hf : ∀ x y, R x y → S (f x) (g y)) {o : Option α} {o' : Option β} (h : Option.Rel R o o') :
    Option.Rel S (o.map f) (o'.map g) := by
  cases h with
  | none => exact .none
  | some hxy => exact .some (hf _ _ hxy)

/-- Related options have related values, if their defaults are related. -/
theorem rel_getD {α β : Type} {R : α → β → Prop} {o : Option α} {o' : Option β}
    (h : Option.Rel R o o') {a : α} {b : β} (hab : R a b) : R (o.getD a) (o'.getD b) := by
  cases h with
  | none => exact hab
  | some hxy => exact hxy

/-- Related options are both empty or both full. -/
theorem rel_cases {α β : Type} {R : α → β → Prop} {o : Option α} {o' : Option β}
    (h : Option.Rel R o o') :
    o = none ∧ o' = none ∨ ∃ x y, o = some x ∧ o' = some y ∧ R x y := by
  cases h with
  | none => exact .inl ⟨rfl, rfl⟩
  | some hxy => exact .inr ⟨_, _, rfl, rfl, hxy⟩

/-! ## Renamings -/

/-- The counterparts of the classes and of the type parameters of one hierarchy in another. -/
structure Renaming where
  cls : ClassId → ClassId → Prop
  param : Param → Param → Prop

namespace Renaming

variable {ρ : Renaming}

/-- The renaming back. -/
def back (ρ : Renaming) : Renaming where
  cls c c' := ρ.cls c' c
  param p p' := ρ.param p' p

/-- Nothing has two counterparts or is the counterpart of two. -/
structure OneToOne (ρ : Renaming) : Prop where
  cls : ∀ {c d c' d'}, ρ.cls c c' → ρ.cls d d' → (c = d ↔ c' = d')
  param : ∀ {p q p' q'}, ρ.param p p' → ρ.param q q' → (p = q ↔ p' = q')
  /-- Nor do identities collide. The names of counterparts need not be the same. -/
  id : ∀ {p q p' q'}, ρ.param p p' → ρ.param q q' → (p.id = q.id ↔ p'.id = q'.id)

/-- The way back is one-to-one as well. -/
theorem OneToOne.back (hρ : ρ.OneToOne) : ρ.back.OneToOne where
  cls hc hd := (hρ.cls hc hd).symm
  param hp hq := (hρ.param hp hq).symm
  id hp hq := (hρ.id hp hq).symm

/-- The renaming of classes alone, for types without type parameters in them. -/
def classes (ρ : Renaming) : Renaming where
  cls := ρ.cls
  param _ _ := False

/-- Forgetting the parameters keeps a correspondence one-to-one. -/
theorem OneToOne.classes (hρ : ρ.OneToOne) : ρ.classes.OneToOne where
  cls := hρ.cls
  param := False.elim
  id := False.elim

end Renaming

variable [Digest TypeData]

namespace Interner

variable {ρ : Renaming} {t t' : Interner} {x x' y y' : TypeId}

/-! ## The same type -/

/-- The types are the same up to the renaming. -/
inductive Same (ρ : Renaming) (t t' : Interner) : TypeId → TypeId → Prop
  | leaf {x : TypeId} (hx : x.isIntrinsic = true) : Same ρ t t' x x
  | param {x x' : TypeId} {p p' : Param} (hdata : t.lookup x = some (.param p))
    (hdata' : t'.lookup x' = some (.param p')) (hp : ρ.param p p') : Same ρ t t' x x'
  | inst {x x' : TypeId} {i i' : Instance} (hdata : t.lookup x = some (.inst i))
    (hdata' : t'.lookup x' = some (.inst i')) (hhead : ρ.cls i.head i'.head)
    (hlength : (t.args i).length = (t'.args i').length)
    (hargs : ∀ (n : Nat) a a', (t.args i)[n]? = some a → (t'.args i')[n]? = some a' →
      Same ρ t t' a a') :
    Same ρ t t' x x'
  | tuple {x x' : TypeId} {list list' : ElementListId} (hdata : t.lookup x = some (.tuple list))
    (hdata' : t'.lookup x' = some (.tuple list'))
    (hlength : (t.elementList list).length = (t'.elementList list').length)
    (hrest : ∀ (n : Nat) e e', (t.elementList list)[n]? = some e →
      (t'.elementList list')[n]? = some e' → e.isRest = e'.isRest)
    (hitems : ∀ (n : Nat) e e', (t.elementList list)[n]? = some e →
      (t'.elementList list')[n]? = some e' → Same ρ t t' e.item e'.item) : Same ρ t t' x x'
  | union {x x' : TypeId} {list list' : TypeListId} {f g : TypeId → TypeId}
    (hdata : t.lookup x = some (.union list)) (hdata' : t'.lookup x' = some (.union list'))
    (hnormal : t.NormalMembers (t.typeList list)) (hnormal' : t'.NormalMembers (t'.typeList list'))
    (hf : ∀ m ∈ t.typeList list, f m ∈ t'.typeList list')
    (hsame : ∀ m ∈ t.typeList list, Same ρ t t' m (f m))
    (hg : ∀ m' ∈ t'.typeList list', g m' ∈ t.typeList list)
    (hsame' : ∀ m' ∈ t'.typeList list', Same ρ t t' (g m') m') : Same ρ t t' x x'

/-- Instances of counterparts with the same arguments. -/
structure SameInstance (ρ : Renaming) (t t' : Interner) (i i' : Instance) : Prop where
  issued : t.IssuedList i.args
  issued' : t'.IssuedList i'.args
  head : ρ.cls i.head i'.head
  args : List.Forall₂ (Same ρ t t') (t.args i) (t'.args i')

/-- Counterparts applied to nothing. -/
theorem SameInstance.bare {c c' : ClassId} (hc : ρ.cls c c') :
    SameInstance ρ t t' (.bare c) (.bare c') where
  issued := Nat.zero_le _
  issued' := Nat.zero_le _
  head := hc
  args := .nil

/-- Components with the same item. -/
def SameElement (ρ : Renaming) (t t' : Interner) (e e' : Element TypeId) : Prop :=
  e.isRest = e'.isRest ∧ Same ρ t t' e.item e'.item

/-- Each member of either list has a counterpart in the other. -/
def SameMembers (ρ : Renaming) (t t' : Interner) (ms ms' : List TypeId) : Prop :=
  (∀ m ∈ ms, ∃ m' ∈ ms', Same ρ t t' m m') ∧ ∀ m' ∈ ms', ∃ m ∈ ms, Same ρ t t' m m'

/-- Structures made of the same types. -/
inductive SameData (ρ : Renaming) (t t' : Interner) : TypeData → TypeData → Prop
  | param {p p' : Param} (hp : ρ.param p p') : SameData ρ t t' (.param p) (.param p')
  | inst {i i' : Instance} (hi : SameInstance ρ t t' i i') : SameData ρ t t' (.inst i) (.inst i')
  | tuple {list list' : ElementListId}
    (hes : List.Forall₂ (SameElement ρ t t') (t.elementList list) (t'.elementList list')) :
    SameData ρ t t' (.tuple list) (.tuple list')
  | union {list list' : TypeListId} (hnormal : t.NormalMembers (t.typeList list))
    (hnormal' : t'.NormalMembers (t'.typeList list'))
    (hms : SameMembers ρ t t' (t.typeList list) (t'.typeList list')) :
    SameData ρ t t' (.union list) (.union list')

/-- Types of which the structures say the same are the same. -/
theorem Same.of_data {data data' : TypeData} (hdata : t.lookup x = some data)
    (hdata' : t'.lookup x' = some data') (h : SameData ρ t t' data data') : Same ρ t t' x x' := by
  cases h with
  | param hp => exact .param hdata hdata' hp
  | inst hi =>
    obtain ⟨hlength, hargs⟩ := forall₂_iff_getElem?.mp hi.args
    exact .inst hdata hdata' hi.head hlength hargs
  | tuple hes =>
    obtain ⟨hlength, hes⟩ := forall₂_iff_getElem?.mp hes
    exact .tuple hdata hdata' hlength (fun n e e' he he' => (hes n e e' he he').1)
      fun n e e' he he' => (hes n e e' he he').2
  | union hnormal hnormal' hms =>
    -- a counterpart is chosen for each member
    choose! f hf hsame using hms.1
    choose! g hg hsame' using hms.2
    exact .union hdata hdata' hnormal hnormal' hf hsame hg hsame'

/-- Induction over two types that are the same. -/
@[elab_as_elim]
theorem Same.induct {P : ∀ x x', Same ρ t t' x x' → Prop}
    (leaf : ∀ x (hx : x.isIntrinsic = true), P x x (.leaf hx))
    (param : ∀ x x' p p' h, t.lookup x = some (.param p) → t'.lookup x' = some (.param p') →
      ρ.param p p' → P x x' h)
    (inst : ∀ x x' i i' h, t.lookup x = some (.inst i) → t'.lookup x' = some (.inst i') →
      ρ.cls i.head i'.head → List.Forall₂ (fun a a' => ∃ h, P a a' h) (t.args i) (t'.args i') →
      P x x' h)
    (tuple : ∀ x x' list list' h, t.lookup x = some (.tuple list) →
      t'.lookup x' = some (.tuple list') →
      List.Forall₂ (fun e e' => e.isRest = e'.isRest ∧ ∃ h, P e.item e'.item h)
        (t.elementList list) (t'.elementList list') → P x x' h)
    (union : ∀ x x' list list' h, t.lookup x = some (.union list) →
      t'.lookup x' = some (.union list') → t.NormalMembers (t.typeList list) →
      t'.NormalMembers (t'.typeList list') →
      (∀ m ∈ t.typeList list, ∃ m' ∈ t'.typeList list', ∃ h, P m m' h) →
      (∀ m' ∈ t'.typeList list', ∃ m ∈ t.typeList list, ∃ h, P m m' h) → P x x' h)
    (h : Same ρ t t' x x') : P x x' h := by
  induction h with
  | leaf hx => exact leaf _ hx
  | param hdata hdata' hp => exact param _ _ _ _ _ hdata hdata' hp
  | inst hdata hdata' hhead hlength hargs ih =>
    exact inst _ _ _ _ _ hdata hdata' hhead (forall₂_iff_getElem?.mpr
      ⟨hlength, fun n a a' ha ha' => ⟨hargs n a a' ha ha', ih n a a' ha ha'⟩⟩)
  | tuple hdata hdata' hlength hrest hitems ih =>
    exact tuple _ _ _ _ _ hdata hdata' (forall₂_iff_getElem?.mpr ⟨hlength, fun n e e' he he' =>
      ⟨hrest n e e' he he', hitems n e e' he he', ih n e e' he he'⟩⟩)
  | @union x x' list list' f g hdata hdata' hnormal hnormal' hf hsame hg hsame' ih ih' =>
    exact union _ _ _ _ _ hdata hdata' hnormal hnormal'
      (fun m hm => ⟨f m, hf m hm, hsame m hm, ih m hm⟩)
      fun m' hm' => ⟨g m', hg m' hm', hsame' m' hm', ih' m' hm'⟩

/-- What is the same one level deep. -/
theorem same_iff (hwf : t.WellFormed) (hwf' : t'.WellFormed) :
    Same ρ t t' x x' ↔ x.isIntrinsic = true ∧ x = x' ∨ ∃ data data', t.lookup x = some data ∧
      t'.lookup x' = some data' ∧ SameData ρ t t' data data' := by
  constructor
  · intro h
    cases h with
    | leaf hx => exact .inl ⟨hx, rfl⟩
    | param hdata hdata' hp => exact .inr ⟨_, _, hdata, hdata', .param hp⟩
    | inst hdata hdata' hhead hlength hargs =>
      exact .inr ⟨_, _, hdata, hdata', .inst ⟨hwf.issuedData_of_lookup hdata,
        hwf'.issuedData_of_lookup hdata', hhead, forall₂_iff_getElem?.mpr ⟨hlength, hargs⟩⟩⟩
    | tuple hdata hdata' hlength hrest hitems =>
      exact .inr ⟨_, _, hdata, hdata', .tuple (forall₂_iff_getElem?.mpr
        ⟨hlength, fun n e e' he he' => ⟨hrest n e e' he he', hitems n e e' he he'⟩⟩)⟩
    | @union _ _ _ _ f g hdata hdata' hnormal hnormal' hf hsame hg hsame' =>
      exact .inr ⟨_, _, hdata, hdata', .union hnormal hnormal'
        ⟨fun m hm => ⟨f m, hf m hm, hsame m hm⟩, fun m' hm' => ⟨g m', hg m' hm', hsame' m' hm'⟩⟩⟩
  · rintro (⟨hx, rfl⟩ | ⟨data, data', hdata, hdata', hsame⟩)
    · exact .leaf hx
    · exact .of_data hdata hdata' hsame

/-- Being the same type is symmetric, with the counterparts exchanged. -/
theorem Same.back (h : Same ρ t t' x x') : Same ρ.back t' t x' x := by
  induction h using Same.induct with
  | leaf x hx => exact .leaf hx
  | param x x' p p' _ hdata hdata' hp => exact .param hdata' hdata hp
  | inst x x' i i' _ hdata hdata' hhead hargs =>
    obtain ⟨hlength, hargs⟩ := forall₂_iff_getElem?.mp hargs
    refine .inst hdata' hdata hhead hlength.symm fun n a' a ha' ha => ?_
    obtain ⟨-, hsame⟩ := hargs n a a' ha ha'
    exact hsame
  | tuple x x' list list' _ hdata hdata' hes =>
    obtain ⟨hlength, hes⟩ := forall₂_iff_getElem?.mp hes
    refine .tuple hdata' hdata hlength.symm (fun n e' e he' he => (hes n e e' he he').1.symm) ?_
    intro n e' e he' he
    obtain ⟨-, -, hsame⟩ := hes n e e' he he'
    exact hsame
  | union x x' list list' _ hdata hdata' hnormal hnormal' hms hms' =>
    refine .of_data hdata' hdata (.union hnormal' hnormal ⟨fun m' hm' => ?_, fun m hm => ?_⟩)
    · obtain ⟨m, hm, -, hsame⟩ := hms' m' hm'
      exact ⟨m, hm, hsame⟩
    · obtain ⟨m', hm', -, hsame⟩ := hms m hm
      exact ⟨m', hm', hsame⟩

/-- A structure of the tables is no intrinsic one. -/
theorem not_intrinsic_of_data {data data' : TypeData} (hdata : t.lookup x = some data)
    (h : SameData ρ t t' data data') : x.isIntrinsic = false := by
  rw [Bool.eq_false_iff]
  intro hx
  rcases data_of_intrinsic hx hdata with rfl | ⟨reason, rfl⟩
  · cases h
  · cases h

/-! ## One counterpart -/

/-- A structure has one handle. -/
theorem WellFormed.lookup_inj (hwf : t.WellFormed) {data : TypeData} (hnever : data ≠ .never)
    (hany : ∀ reason, data ≠ .any reason) (hx : t.lookup x = some data)
    (hy : t.lookup y = some data) : x = y := by
  have hrun := fixed_intern hwf hx hnever hany t t.le_refl
  rw [fixed_intern hwf hy hnever hany t t.le_refl] at hrun
  exact (congrArg Prod.fst hrun).symm

/-- A list of types has one handle. -/
theorem WellFormed.typeList_inj (hwf : t.WellFormed) {list list' : TypeListId}
    (h : t.IssuedList list) (h' : t.IssuedList list') (heq : t.typeList list = t.typeList list') :
    list = list' := by
  have hrun := fixed_internTypes hwf h t t.le_refl
  rw [heq, fixed_internTypes hwf h' t t.le_refl] at hrun
  exact (congrArg Prod.fst hrun).symm

/-- A list of tuple elements has one handle. -/
theorem WellFormed.elementList_inj (hwf : t.WellFormed) {list list' : ElementListId}
    (h : t.IssuedElements list) (h' : t.IssuedElements list')
    (heq : t.elementList list = t.elementList list') : list = list' := by
  have hrun := fixed_internElements hwf h t t.le_refl
  rw [heq, fixed_internElements hwf h' t t.le_refl] at hrun
  exact (congrArg Prod.fst hrun).symm

/-- An instance is determined by its class and its arguments. -/
theorem WellFormed.instance_inj (hwf : t.WellFormed) {i j : Instance} (hi : t.IssuedList i.args)
    (hj : t.IssuedList j.args) (hhead : i.head = j.head) (hargs : t.args i = t.args j) : i = j := by
  obtain ⟨c, args⟩ := i
  obtain ⟨d, args'⟩ := j
  exact congrArg₂ Instance.mk hhead (hwf.typeList_inj hi hj hargs)

/-- The structures of two counterparts, of which the one is known. -/
theorem Same.data (hwf : t.WellFormed) (hwf' : t'.WellFormed) {data : TypeData}
    (h : Same ρ t t' x x') (hdata : t.lookup x = some data) (hnever : data ≠ .never)
    (hany : ∀ reason, data ≠ .any reason) :
    ∃ data', t'.lookup x' = some data' ∧ SameData ρ t t' data data' := by
  rcases (same_iff hwf hwf').mp h with ⟨hx, -⟩ | ⟨data₂, data', hdata₂, hdata', hsame⟩
  · rcases data_of_intrinsic hx hdata with heq | ⟨reason, heq⟩
    · exact absurd heq hnever
    · exact absurd heq (hany reason)
  · obtain rfl := Option.some.inj (hdata.symm.trans hdata₂)
    exact ⟨data', hdata', hsame⟩

/-- A type that is no structure has the same handle in all tables. -/
theorem Same.eq_of_intrinsic (hwf : t.WellFormed) (hwf' : t'.WellFormed) (h : Same ρ t t' x x')
    (hx : x.isIntrinsic = true) : x = x' := by
  rcases (same_iff hwf hwf').mp h with ⟨-, heq⟩ | ⟨data, data', hdata, -, hsame⟩
  · exact heq
  · rw [not_intrinsic_of_data hdata hsame] at hx
    cases hx

/-- A type has one counterpart. -/
theorem Same.unique (hρ : ρ.OneToOne) (hwf : t.WellFormed) (hwf' : t'.WellFormed)
    (hy : Same ρ t t' x y) {z : TypeId} (hz : Same ρ t t' x z) : y = z := by
  induction hy using Same.induct generalizing z with
  | leaf x hx => exact hz.eq_of_intrinsic hwf hwf' hx
  | param x y p p' _ hdata hdata' hp =>
    obtain ⟨_, hdata₂, hsame⟩ := hz.data hwf hwf' hdata (by simp) (by simp)
    cases hsame with
    | param hp₂ =>
      obtain rfl := (hρ.param hp hp₂).mp rfl
      exact hwf'.lookup_inj (by simp) (by simp) hdata' hdata₂
  | inst x y i i' _ hdata hdata' hhead hargs =>
    obtain ⟨_, hdata₂, hsame⟩ := hz.data hwf hwf' hdata (by simp) (by simp)
    cases hsame with
    | inst hi =>
      have hlists := eq_of_forall₂ (hargs.imp fun _ _ ⟨_, h⟩ z hz => h hz) hi.args
      obtain rfl := hwf'.instance_inj (hwf'.issuedData_of_lookup hdata') hi.issued'
        ((hρ.cls hhead hi.head).mp rfl) hlists
      exact hwf'.lookup_inj (by simp) (by simp) hdata' hdata₂
  | tuple x y list list' _ hdata hdata' hes =>
    obtain ⟨_, hdata₂, hsame⟩ := hz.data hwf hwf' hdata (by simp) (by simp)
    cases hsame with
    | @tuple _ list₂ hes₂ =>
      have hlists : t'.elementList list' = t'.elementList list₂ := by
        refine eq_of_forall₂ (hes.imp ?_) hes₂
        rintro ⟨a, isRest⟩ ⟨b, isRest'⟩ ⟨hrest, -, h⟩ ⟨z, isRest''⟩ ⟨hrest', hz⟩
        exact congrArg₂ Element.mk (h hz) (hrest.symm.trans hrest')
      obtain rfl := hwf'.elementList_inj (hwf'.issuedData_of_lookup hdata')
        (hwf'.issuedData_of_lookup hdata₂) hlists
      exact hwf'.lookup_inj (by simp) (by simp) hdata' hdata₂
  | union x y list list' _ hdata hdata' hnormal hnormal' hms hms' =>
    obtain ⟨_, hdata₂, hsame⟩ := hz.data hwf hwf' hdata (by simp) (by simp)
    cases hsame with
    | union _ hnormal₂ hms₂ =>
      -- the members of both are the counterparts of the same members
      have hlists := eq_of_ascend hnormal'.ascend hnormal₂.ascend fun m' => by
        constructor
        · intro hm'
          obtain ⟨m, hm, -, h⟩ := hms' m' hm'
          obtain ⟨m'', hm'', hsame⟩ := hms₂.1 m hm
          rwa [h hsame]
        · intro hm'
          obtain ⟨m, hm, hsame⟩ := hms₂.2 m' hm'
          obtain ⟨m'', hm'', -, h⟩ := hms m hm
          rwa [← h hsame]
      obtain rfl := hwf'.typeList_inj (hwf'.issuedData_of_lookup hdata')
        (hwf'.issuedData_of_lookup hdata₂) hlists
      exact hwf'.lookup_inj (by simp) (by simp) hdata' hdata₂

section Counterparts

variable (hρ : ρ.OneToOne) (hwf : t.WellFormed) (hwf' : t'.WellFormed)

include hρ hwf hwf'

/-- Each type has one counterpart, and is that of one. -/
theorem Same.eq_iff (hx : Same ρ t t' x x') (hy : Same ρ t t' y y') : x = y ↔ x' = y' :=
  ⟨fun h => hx.unique hρ hwf hwf' (h ▸ hy),
    fun h => hx.back.unique hρ.back hwf' hwf (h ▸ hy.back)⟩

/-- Each tuple element has one counterpart. -/
theorem SameElement.eq_iff {e e' d d' : Element TypeId} (he : SameElement ρ t t' e e')
    (hd : SameElement ρ t t' d d') : e = d ↔ e' = d' := by
  obtain ⟨item, isRest⟩ := e
  obtain ⟨item', isRest'⟩ := e'
  obtain ⟨hrest, hitem⟩ := he
  obtain rfl : isRest = isRest' := hrest
  obtain ⟨hrest', hitem'⟩ := hd
  rw [Element.mk.injEq, Element.mk.injEq, hitem.eq_iff hρ hwf hwf' hitem', hrest']

/-- Each instance has one counterpart. -/
theorem SameInstance.eq_iff {i i' j j' : Instance} (hi : SameInstance ρ t t' i i')
    (hj : SameInstance ρ t t' j j') : i = j ↔ i' = j' := by
  have hargs : t.args i = t.args j ↔ t'.args i' = t'.args j' :=
    eq_iff_of_forall₂ (fun hx hy => hx.eq_iff hρ hwf hwf' hy) hi.args hj.args
  constructor
  · rintro rfl
    exact hwf'.instance_inj hi.issued' hj.issued' ((hρ.cls hi.head hj.head).mp rfl) (hargs.mp rfl)
  · rintro rfl
    exact hwf.instance_inj hi.issued hj.issued ((hρ.cls hi.head hj.head).mpr rfl) (hargs.mpr rfl)

/-- Counterparts of all members of the one list are all members of the other. -/
theorem SameMembers.perm {ms ms' : List TypeId} (hms : SameMembers ρ t t' ms ms')
    (hnodup : ms.Nodup) (hnodup' : ms'.Nodup) {f : TypeId → TypeId}
    (hf : ∀ m ∈ ms, Same ρ t t' m (f m)) : (ms.map f).Perm ms' := by
  have hinj : ∀ m ∈ ms, ∀ n ∈ ms, f m = f n → m = n :=
    fun m hm n hn h => ((hf m hm).eq_iff hρ hwf hwf' (hf n hn)).mpr h
  refine (List.perm_ext_iff_of_nodup (List.Nodup.map_on hinj hnodup) hnodup').mpr fun m' => ?_
  rw [List.mem_map]
  constructor
  · rintro ⟨m, hm, rfl⟩
    obtain ⟨m', hm', hsame⟩ := hms.1 m hm
    rwa [(hf m hm).unique hρ hwf hwf' hsame]
  · intro hm'
    obtain ⟨m, hm, hsame⟩ := hms.2 m' hm'
    exact ⟨m, hm, (hf m hm).unique hρ hwf hwf' hsame⟩

/-- Unions that say the same have equally many members. -/
theorem SameMembers.length_eq {ms ms' : List TypeId} (hms : SameMembers ρ t t' ms ms')
    (hnodup : ms.Nodup) (hnodup' : ms'.Nodup) : ms.length = ms'.length := by
  choose! f _ hf using hms.1
  rw [← (hms.perm hρ hwf hwf' hnodup hnodup' hf).length_eq, List.length_map]

end Counterparts

/-! ## What occurs in counterparts -/

section Occurrences

variable (hwf : t.WellFormed) (hwf' : t'.WellFormed)

include hwf hwf'

/-- What a type consists of has its counterpart in what the other one consists of. -/
theorem Same.child (h : Same ρ t t' x x') {c : TypeId} (hc : c ∈ t.children x) :
    ∃ c' ∈ t'.children x', Same ρ t t' c c' := by
  obtain ⟨data, hdata, hchild⟩ := lookup_of_mem_children hc
  rcases (same_iff hwf hwf').mp h with ⟨hx, -⟩ | ⟨data₂, data', hdata₂, hdata', hsame⟩
  · rcases data_of_intrinsic hx hdata with rfl | ⟨reason, rfl⟩
    · exact absurd hchild List.not_mem_nil
    · exact absurd hchild List.not_mem_nil
  · obtain rfl := Option.some.inj (hdata.symm.trans hdata₂)
    rw [children_of_lookup hdata']
    cases hsame with
    | param => exact absurd hchild List.not_mem_nil
    | inst hi => exact exists_of_mem_left hi.args hchild
    | tuple hes =>
      obtain ⟨e, he, rfl⟩ := List.mem_map.mp hchild
      obtain ⟨e', he', -, hsame⟩ := exists_of_mem_left hes he
      exact ⟨e'.item, List.mem_map_of_mem he', hsame⟩
    | union _ _ hms => exact hms.1 c hchild

/-- So has what occurs in it at any depth. -/
theorem Same.occurs (h : Same ρ t t' x x') (hy : t.Occurs x y) :
    ∃ y', t'.Occurs x' y' ∧ Same ρ t t' y y' := by
  induction hy with
  | refl => exact ⟨x', .refl, h⟩
  | tail _ hstep ih =>
    obtain ⟨y', hy', hsame⟩ := ih
    obtain ⟨c', hc', hsame'⟩ := hsame.child hwf hwf' hstep
    exact ⟨c', hy'.tail hc', hsame'⟩

/-- A type mentions a parameter if its counterpart does. -/
theorem Same.mentions (h : Same ρ t t' x x') {p : Param} (hp : t.Mentions x p) :
    ∃ p', t'.Mentions x' p' := by
  obtain ⟨y, hy, hdata⟩ := hp
  obtain ⟨y', hy', hsame⟩ := h.occurs hwf hwf' hy
  obtain ⟨_, hdata', hsame⟩ := hsame.data hwf hwf' hdata (by simp) (by simp)
  cases hsame with
  | @param _ p' _ => exact ⟨p', y', hy', hdata'⟩

theorem Same.mentionsParam_eq (h : Same ρ t t' x x') :
    t.mentionsParam x = t'.mentionsParam x' := by
  rw [Bool.eq_iff_iff, mentionsParam_iff, mentionsParam_iff]
  exact ⟨fun ⟨_, hp⟩ => h.mentions hwf hwf' hp, fun ⟨_, hp⟩ => h.back.mentions hwf' hwf hp⟩

/-- The classes in a type have their counterparts in the other one. -/
theorem Same.mem_classes (h : Same ρ t t' x x') {c : ClassId} (hc : c ∈ t.classes x) :
    ∃ c' ∈ t'.classes x', ρ.cls c c' := by
  obtain ⟨y, i, hy, hdata, rfl⟩ := mem_classes_iff.mp hc
  obtain ⟨y', hy', hsame⟩ := h.occurs hwf hwf' hy
  obtain ⟨_, hdata', hsame⟩ := hsame.data hwf hwf' hdata (by simp) (by simp)
  cases hsame with
  | @inst _ i' hi => exact ⟨i'.head, mem_classes_iff.mpr ⟨y', i', hy', hdata', rfl⟩, hi.head⟩

end Occurrences

/-! ## Types without type parameters -/

section Ground

variable {V : Vocabulary} (hV : ∀ p, ¬ V.param p)

include hV

/-- A type without type parameters in it is the same up to the renaming of classes alone. -/
theorem Same.classes (h : Same ρ t t' x x') (hx : t.Proper V x) : Same ρ.classes t t' x x' := by
  induction h using Same.induct with
  | leaf x hleaf => exact .leaf hleaf
  | param x x' p p' _ hdata => exact absurd (hx.param_of_param hdata) (hV p)
  | inst x x' i i' _ hdata hdata' hhead hargs =>
    have hproper : ∀ a ∈ t.args i, t.Proper V a :=
      fun a ha => hx.of_mem_children a (by rw [children_of_lookup hdata]; exact ha)
    obtain ⟨hlength, hargs⟩ := forall₂_iff_getElem?.mp hargs
    refine .inst hdata hdata' hhead hlength fun n a a' ha ha' => ?_
    obtain ⟨-, hsame⟩ := hargs n a a' ha ha'
    exact hsame (hproper a (List.mem_of_getElem? ha))
  | tuple x x' list list' _ hdata hdata' hes =>
    have hproper : ∀ e ∈ t.elementList list, t.Proper V e.item := fun e he =>
      hx.of_mem_children e.item (by rw [children_of_lookup hdata]; exact List.mem_map_of_mem he)
    obtain ⟨hlength, hes⟩ := forall₂_iff_getElem?.mp hes
    refine .tuple hdata hdata' hlength (fun n e e' he he' => (hes n e e' he he').1) ?_
    intro n e e' he he'
    obtain ⟨-, -, hsame⟩ := hes n e e' he he'
    exact hsame (hproper e (List.mem_of_getElem? he))
  | union x x' list list' _ hdata hdata' hnormal hnormal' hms hms' =>
    have hproper : ∀ m ∈ t.typeList list, t.Proper V m :=
      fun m hm => hx.of_mem_children m (by rw [children_of_lookup hdata]; exact hm)
    refine .of_data hdata hdata' (.union hnormal hnormal' ⟨fun m hm => ?_, fun m' hm' => ?_⟩)
    · obtain ⟨m', hm', -, hsame⟩ := hms m hm
      exact ⟨m', hm', hsame (hproper m hm)⟩
    · obtain ⟨m, hm, -, hsame⟩ := hms' m' hm'
      exact ⟨m, hm, hsame (hproper m hm)⟩

theorem SameInstance.classes {i i' : Instance} (h : SameInstance ρ t t' i i')
    (hi : t.ProperInstance V i) : SameInstance ρ.classes t t' i i' where
  issued := h.issued
  issued' := h.issued'
  head := h.head
  args := forall₂_imp_mem h.args fun a ha _ _ hsame => hsame.classes hV (hi.args a ha)

end Ground

end Interner

/-! ## Texts -/

namespace TypePrinter

open Interner

omit [Digest TypeData] in
/-- Texts are put into order by an insertion sort. -/
theorem sortTexts_eq (texts : List String) : sortTexts texts = texts.insertionSort (· ≤ ·) := by
  have hinsert : ∀ s (xs : List String), insertText s xs = xs.orderedInsert (· ≤ ·) s := by
    intro s xs
    induction xs with
    | nil => rfl
    | cons first rest ih => rw [insertText, List.orderedInsert_cons, ih]
  induction texts with
  | nil => rfl
  | cons s rest ih =>
    rw [List.insertionSort_cons, ← ih, ← hinsert]
    rfl

omit [Digest TypeData] in
/-- Sorted texts do not depend on the order in which they are given. -/
theorem sortTexts_perm {xs ys : List String} (h : xs.Perm ys) : sortTexts xs = sortTexts ys := by
  rw [sortTexts_eq, sortTexts_eq]
  have hperm := (xs.perm_insertionSort (· ≤ ·)).trans (h.trans (ys.perm_insertionSort (· ≤ ·)).symm)
  exact hperm.eq_of_pairwise (fun a b _ _ => le_antisymm) (xs.pairwise_insertionSort _)
    (ys.pairwise_insertionSort _)

/-- The printers write counterparts alike. -/
structure Alike (ρ : Renaming) (p p' : TypePrinter) : Prop where
  className : ∀ c c', ρ.cls c c' → p.className c = p'.className c'
  paramName : ∀ q q', ρ.param q q' → q.name = q'.name
  reasons : p.reasons = p'.reasons

variable {ρ : Renaming} {p p' : TypePrinter} {x x' : TypeId}

omit [Digest TypeData] in
/-- Counterparts of classes, applied to the same texts, are written alike. -/
theorem Alike.applied (h : Alike ρ p p') {c c' : ClassId} (hc : ρ.cls c c')
    {texts texts' : List String}
    (htexts : texts = texts') : p.applied c texts = p'.applied c' texts' := by
  unfold TypePrinter.applied
  rw [h.className c c' hc, htexts]

section Printing

variable (hρ : ρ.OneToOne) (hwf : p.types.WellFormed) (hwf' : p'.types.WellFormed)
  (halike : Alike ρ p p')

include hρ hwf hwf' halike

/-- Counterparts have one text, written down to their leaves. -/
theorem typeText_eq {rank rank' : TypeId → Nat}
    (hrank : ∀ id, ∀ c ∈ p.types.children id, rank c < rank id)
    (hrank' : ∀ id, ∀ c ∈ p'.types.children id, rank' c < rank' id)
    (h : Same ρ p.types p'.types x x') {depth depth' : Nat} (hdepth : rank x < depth)
    (hdepth' : rank' x' < depth') :
    p.typeText sortTexts depth x = p'.typeText sortTexts depth' x' := by
  induction h using Same.induct generalizing depth depth' with
  | leaf x hx =>
    obtain ⟨depth, rfl⟩ := Nat.exists_eq_succ_of_ne_zero (Nat.ne_zero_of_lt hdepth)
    obtain ⟨depth', rfl⟩ := Nat.exists_eq_succ_of_ne_zero (Nat.ne_zero_of_lt hdepth')
    unfold typeText
    rw [lookup_of_intrinsic hx, lookup_of_intrinsic hx]
    cases hdata : x.intrinsic? with
    | none => rfl
    | some data =>
      have hlookup : p.types.lookup x = some data := (lookup_of_intrinsic hx).trans hdata
      rcases data_of_intrinsic hx hlookup with rfl | ⟨reason, rfl⟩
      · rfl
      · show p.anyText reason = p'.anyText reason
        unfold anyText
        rw [halike.reasons]
  | param x x' q q' _ hdata hdata' hq =>
    obtain ⟨depth, rfl⟩ := Nat.exists_eq_succ_of_ne_zero (Nat.ne_zero_of_lt hdepth)
    obtain ⟨depth', rfl⟩ := Nat.exists_eq_succ_of_ne_zero (Nat.ne_zero_of_lt hdepth')
    unfold typeText
    rw [hdata, hdata']
    exact halike.paramName q q' hq
  | inst x x' i i' _ hdata hdata' hhead hargs =>
    obtain ⟨depth, rfl⟩ := Nat.exists_eq_succ_of_ne_zero (Nat.ne_zero_of_lt hdepth)
    obtain ⟨depth', rfl⟩ := Nat.exists_eq_succ_of_ne_zero (Nat.ne_zero_of_lt hdepth')
    unfold typeText
    rw [hdata, hdata']
    refine halike.applied hhead (map_eq_map_of_forall₂ (forall₂_imp_mem hargs ?_)).symm
    rintro a ha a' ha' ⟨_, ih⟩
    have hlt := hrank x a (by rw [children_of_lookup hdata]; exact ha)
    have hlt' := hrank' x' a' (by rw [children_of_lookup hdata']; exact ha')
    exact (ih (by omega) (by omega)).symm
  | tuple x x' list list' _ hdata hdata' hes =>
    obtain ⟨depth, rfl⟩ := Nat.exists_eq_succ_of_ne_zero (Nat.ne_zero_of_lt hdepth)
    obtain ⟨depth', rfl⟩ := Nat.exists_eq_succ_of_ne_zero (Nat.ne_zero_of_lt hdepth')
    unfold typeText
    rw [hdata, hdata']
    refine congrArg tupleText (map_eq_map_of_forall₂ (forall₂_imp_mem hes ?_)).symm
    rintro e he e' he' ⟨hrest, _, ih⟩
    have hlt := hrank x e.item (by
      rw [children_of_lookup hdata]
      exact List.mem_map_of_mem he)
    have hlt' := hrank' x' e'.item (by
      rw [children_of_lookup hdata']
      exact List.mem_map_of_mem he')
    exact congrArg₂ Element.mk (ih (by omega) (by omega)).symm hrest.symm
  | union x x' list list' h hdata hdata' hnormal hnormal' hms hms' =>
    obtain ⟨depth, rfl⟩ := Nat.exists_eq_succ_of_ne_zero (Nat.ne_zero_of_lt hdepth)
    obtain ⟨depth', rfl⟩ := Nat.exists_eq_succ_of_ne_zero (Nat.ne_zero_of_lt hdepth')
    unfold typeText
    rw [hdata, hdata']
    -- the texts of the members are the same but for their order
    choose! f hf hsame ih using hms
    have hmembers : SameMembers ρ p.types p'.types (p.types.typeList list)
        (p'.types.typeList list') :=
      ⟨fun m hm => ⟨f m, hf m hm, hsame m hm⟩, fun m' hm' => by
        obtain ⟨m, hm, hsame, -⟩ := hms' m' hm'
        exact ⟨m, hm, hsame⟩⟩
    have hperm := hmembers.perm hρ hwf hwf' (nodup_of_ascend hnormal.ascend)
      (nodup_of_ascend hnormal'.ascend) hsame
    have htexts : (p.types.typeList list).map (p.typeText sortTexts depth) =
        ((p.types.typeList list).map f).map (p'.typeText sortTexts depth') := by
      rw [List.map_map]
      refine List.map_congr_left fun m hm => ?_
      have hlt := hrank x m (by rw [children_of_lookup hdata]; exact hm)
      have hlt' := hrank' x' (f m) (by rw [children_of_lookup hdata']; exact hf m hm)
      exact ih m hm (by omega) (by omega)
    show " | ".intercalate _ = " | ".intercalate _
    rw [htexts, sortTexts_perm (hperm.map _)]

/-- The same types have the same text up to the order of union members. -/
theorem sortedText_eq (h : Same ρ p.types p'.types x x') : p.sortedText x = p'.sortedText x' := by
  obtain ⟨rank, hrank⟩ := hwf.ranked
  obtain ⟨rank', hrank'⟩ := hwf'.ranked
  exact typeText_eq hρ hwf hwf' halike (fun id => (hrank id).2) (fun id => (hrank' id).2) h
    (Nat.lt_succ_of_le (hrank x).1) (Nat.lt_succ_of_le (hrank' x').1)

/-- So have the same instances. -/
theorem sortedInstanceText_eq {i i' : Instance} (h : SameInstance ρ p.types p'.types i i') :
    p.sortedInstanceText i = p'.sortedInstanceText i' :=
  halike.applied h.head (map_eq_map_of_forall₂
    (h.args.imp fun _ _ ha => (sortedText_eq hρ hwf hwf' halike ha).symm)).symm

end Printing

end TypePrinter

end Supertypes
