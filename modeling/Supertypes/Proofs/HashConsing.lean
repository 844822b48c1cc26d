import Mathlib.Logic.Relation
import Supertypes.Proofs.BuildingInStep

/-!
# Hash-consing

Types are built by calls on handles that earlier calls have answered.

- `Interner.Call` is a call that builds a type, `Interner.Issues` what is known after a sequence
  of them: the calls with their answers, and the tables.
- `Interner.Call.Describes`: what a handle stands for that a call has answered. It is read back
  from the tables, and `Interner.Call.Describes.of_le` says that this does not change any more.
- `Interner.Alike`: two handles stand for structures that are equal at every depth, where unions
  count as sets. `Interner.eq_of_alikeTo` and `Interner.alikeTo_self` say that these are the same
  handles.
- `Interner.Issues.handles_exact` puts this together for all calls.

Nothing here depends on the way in which structures are spread over the shards.
-/

namespace Supertypes

namespace Interner

variable {t t' : Interner} {id : TypeId}

/-! ## Calls -/

/-- A call that builds a type. -/
inductive Call
  | any (reason : AnyReason)
  | param (p : Param)
  | inst (head : ClassId) (args : List TypeId)
  | tuple (elements : List (Element TypeId))
  | union (members : List TypeId)

section

variable [Digest TypeData]

namespace Call

/-- The handles that a call refers to. -/
def operands : Call → List TypeId
  | .any _ | .param _ => []
  | .inst _ args => args
  | .tuple elements => elements.map Element.item
  | .union members => members

/-- Make the call. -/
def build : Call → Interning TypeId
  | .any reason => intern (.any reason)
  | .param p => Interner.param p
  | .inst head args => instType head args
  | .tuple elements => Interner.tuple elements
  | .union members => Interner.union members

end Call

/-- After some calls, each on handles that earlier calls have answered: the calls with their
answers, the last one first, and the tables. -/
inductive Issues : List (Call × TypeId) → Interner → Prop
  | start : Issues [] {}
  | call {log : List (Call × TypeId)} {t : Interner} (h : Issues log t) (c : Call)
    (hc : ∀ x ∈ c.operands, x ∈ log.map Prod.snd) :
    Issues ((c, (c.build.run t).1) :: log) (c.build.run t).2

/-! ## What a call has built -/

/-- `x` is among what `members` contribute to their union. -/
def Contributes (t : Interner) (members : List TypeId) (x : TypeId) : Prop :=
  ∃ m ∈ members, x ∈ t.membersOf m

/-- The handle stands for the union of `members`: an `Any` among what they contribute, explicit
before unannotated before error, or else what remains without `Never`, as a set. Where nothing
remains this is `Never`, and where one type remains it is that type. -/
inductive IsUnion (t : Interner) (members : List TypeId) : TypeId → Prop
  | any {reason : AnyReason} (h : t.Contributes members (.any reason))
    (hfirst : ∀ other, t.Contributes members (.any other) →
      (TypeId.any reason).word ≤ (TypeId.any other).word) : IsUnion t members (.any reason)
  | never (h : ∀ x, t.Contributes members x → x = .never) : IsUnion t members .never
  | single {x : TypeId} (hany : x.isAny = false) (hnever : x ≠ .never)
    (h : ∀ y, t.Contributes members y ∧ y ≠ .never ↔ y = x) : IsUnion t members x
  | several {id : TypeId} {list : TypeListId} (hdata : t.lookup id = some (.union list))
    (hany : ∀ x, t.Contributes members x → x.isAny = false) (htwo : 2 ≤ (t.typeList list).length)
    (hnodup : (t.typeList list).Nodup)
    (h : ∀ x, x ∈ t.typeList list ↔ t.Contributes members x ∧ x ≠ .never) : IsUnion t members id

/-- What the handle stands for that the call has answered. -/
def Call.Describes (t : Interner) (id : TypeId) : Call → Prop
  | .any reason => t.lookup id = some (.any reason)
  | .param p => t.lookup id = some (.param p)
  | .inst head args => ∃ i, t.lookup id = some (.inst i) ∧ i.head = head ∧ t.args i = args
  | .tuple elements => ∃ list, t.lookup id = some (.tuple list) ∧ t.elementList list = elements
  | .union members => t.IsUnion members id

/-- Later tables describe a handle as earlier ones do. -/
theorem Call.Describes.of_le {c : Call} (hwf : t.WellFormed) (hle : t ≤ t')
    (hc : ∀ x ∈ c.operands, t.Issued x) (h : c.Describes t id) : c.Describes t' id := by
  cases c with
  | any reason => exact lookup_of_le hle h
  | param p => exact lookup_of_le hle h
  | inst head args =>
    obtain ⟨i, hdata, hhead, hargs⟩ := h
    have hissued : t.IssuedData (.inst i) := hwf.issuedData_of_lookup hdata
    exact ⟨i, lookup_of_le hle hdata, hhead, (IssuedList.args_eq hissued hle).trans hargs⟩
  | tuple elements =>
    obtain ⟨list, hdata, hlist⟩ := h
    have hissued : t.IssuedData (.tuple list) := hwf.issuedData_of_lookup hdata
    exact ⟨list, lookup_of_le hle hdata, (IssuedElements.elementList_eq hissued hle).trans hlist⟩
  | union members =>
    have hsame : ∀ x, t'.Contributes members x ↔ t.Contributes members x := fun x =>
      exists_congr fun m => and_congr_right fun hm => by rw [hwf.membersOf_eq (hc m hm) hle]
    cases h with
    | any h hfirst =>
      exact .any ((hsame _).mpr h) fun other hother => hfirst other ((hsame _).mp hother)
    | never h => exact .never fun x hx => h x ((hsame x).mp hx)
    | single hany hnever h => exact .single hany hnever fun y => by rw [hsame, h]
    | @several _ list hdata hany htwo hnodup h =>
      have hissued : t.IssuedData (.union list) := hwf.issuedData_of_lookup hdata
      have hlist : t'.typeList list = t.typeList list := IssuedList.typeList_eq hissued hle
      refine .several (lookup_of_le hle hdata) (fun x hx => hany x ((hsame x).mp hx)) ?_ ?_ ?_
      · rwa [hlist]
      · rwa [hlist]
      · exact fun x => by rw [hlist, hsame, h]

omit [Digest TypeData] in
/-- In an ascending list the search finds the least. -/
theorem le_of_find? {test : TypeId → Bool} {ids : List TypeId}
    (h : ids.Pairwise fun a b => a.word < b.word) {x : TypeId} (hx : ids.find? test = some x)
    {y : TypeId} (hy : y ∈ ids) (htest : test y = true) : x.word ≤ y.word := by
  obtain ⟨-, before, after, rfl, hbefore⟩ := List.find?_eq_some_iff_append.mp hx
  rcases List.mem_append.mp hy with hy | hy
  · exact absurd htest (by simpa using hbefore y hy)
  · rcases List.mem_cons.mp hy with rfl | hy
    · exact UInt32.le_refl _
    · have hafter := (List.pairwise_append.mp h).2.1
      exact UInt32.le_of_lt ((List.pairwise_cons.mp hafter).1 y hy)

/-- A union that is found is the union of its parts. -/
theorem Finds.isUnion (hwf : t.WellFormed) (hroom : t.HasRoom) {members : List TypeId}
    (h : t.Finds (Interner.union members) id) : t.IsUnion members id := by
  have hparts : ∀ x, x ∈ t.parts members ↔ t.Contributes members x ∧ x ≠ .never := by
    intro x
    unfold parts
    rw [List.mem_filter, mem_flatten, decide_eq_true_iff]
    rfl
  rcases h.union hwf hroom with hany | ⟨hany, hid⟩
  -- an `Any` takes the place of all, and the first of them does
  · obtain ⟨reason, rfl⟩ := exists_any_of_isAny (List.find?_some hany)
    refine .any (mem_flatten.mp (List.mem_of_find?_eq_some hany)) fun other hother => ?_
    have hmem : TypeId.any other ∈ t.flatten members := mem_flatten.mpr hother
    exact le_of_find? (t.ascend_flatten members) hany hmem (by cases other <;> rfl)
  -- without an `Any` what is left decides: nothing, one member or several
  · have hnone : ∀ x, t.Contributes members x → x.isAny = false := by
      intro x hx
      simpa using List.find?_eq_none.mp hany x (mem_flatten.mpr hx)
    rcases hid with ⟨hnil, rfl⟩ | hsingle | ⟨htwo, list, hdata, hlist⟩
    · refine .never fun x hx => ?_
      by_contra hne
      have hmem := (hparts x).mpr ⟨hx, hne⟩
      rw [hnil] at hmem
      exact absurd hmem List.not_mem_nil
    · have hmem := (hparts id).mp (hsingle ▸ List.mem_singleton_self id)
      refine .single (hnone id hmem.1) hmem.2 fun y => ?_
      rw [← hparts, hsingle, List.mem_singleton]
    · refine .several hdata hnone ?_ ?_ ?_
      · rwa [hlist]
      · rw [hlist]
        exact nodup_of_ascend ((t.ascend_flatten members).filter _)
      · exact fun x => by rw [hlist, hparts]

theorem Finds.describes (hwf : t.WellFormed) (hroom : t.HasRoom) {c : Call}
    (h : t.Finds c.build id) : c.Describes t id := by
  cases c with
  | any reason =>
    rw [h.of_pure]
    cases reason <;> rfl
  | param p => exact h.intern hwf hroom (by simp) (by simp)
  | inst head args =>
    obtain ⟨i, hi, hid⟩ := h.of_bind
    obtain ⟨list, hlist, hi⟩ := hi.of_bind
    obtain rfl := hi.of_pure
    exact ⟨_, hid.intern hwf hroom (by simp) (by simp), rfl, hlist.internTypes.2⟩
  | tuple elements =>
    obtain ⟨list, hlist, hid⟩ := h.of_bind
    exact ⟨list, hid.intern hwf hroom (by simp) (by simp), hlist.internElements.2⟩
  | union members => exact h.isUnion hwf hroom

/-! ## Structural equality -/

/-- The structures are equal if their children are related by `R`. Unions count as sets. -/
inductive Matches (t : Interner) (R : TypeId → TypeId → Prop) : TypeData → TypeData → Prop
  | never : Matches t R .never .never
  | any (reason : AnyReason) : Matches t R (.any reason) (.any reason)
  | param (p : Param) : Matches t R (.param p) (.param p)
  | inst {i j : Instance} (hhead : i.head = j.head) (hargs : List.Forall₂ R (t.args i) (t.args j)) :
    Matches t R (.inst i) (.inst j)
  | tuple {list list' : ElementListId}
    (h : List.Forall₂ (fun e e' => e.isRest = e'.isRest ∧ R e.item e'.item) (t.elementList list)
      (t.elementList list')) : Matches t R (.tuple list) (.tuple list')
  | union {list list' : TypeListId} (h : ∀ m ∈ t.typeList list, ∃ m' ∈ t.typeList list', R m m')
    (h' : ∀ m' ∈ t.typeList list', ∃ m ∈ t.typeList list, R m m') :
    Matches t R (.union list) (.union list')

/-- The structures that the handles stand for are equal down to some depth. -/
def AlikeTo (t : Interner) : Nat → TypeId → TypeId → Prop
  | 0, _, _ => True
  | depth + 1, a, b => ∃ data data', t.lookup a = some data ∧ t.lookup b = some data' ∧
    t.Matches (t.AlikeTo depth) data data'

/-- The structures that the handles stand for are equal at every depth. -/
def Alike (t : Interner) (a b : TypeId) : Prop :=
  ∀ depth, t.AlikeTo depth a b

/-- All that calls can build. -/
def known : Vocabulary where
  leaf x := x = .never ∨ ∃ reason, x = .any reason
  param _ := True
  takes _ _ := True

theorem lookup_any (t : Interner) (reason : AnyReason) :
    t.lookup (.any reason) = some (.any reason) := by
  cases reason <;> rfl

/-- What calls build is `Never`, an `Any`, or stands for a structure of the tables. -/
theorem Proper.known_cases (h : t.Proper known id) :
    id = .never ∨ (∃ reason, id = .any reason) ∨
      ∃ data, t.lookup id = some data ∧ data ≠ .never ∧ ∀ reason, data ≠ .any reason := by
  cases h with
  | leaf _ hleaf => exact hleaf.imp_right .inl
  | param hdata _ => exact .inr (.inr ⟨_, hdata, by simp, by simp⟩)
  | inst hdata _ _ => exact .inr (.inr ⟨_, hdata, by simp, by simp⟩)
  | tuple hdata _ => exact .inr (.inr ⟨_, hdata, by simp, by simp⟩)
  | union hdata _ _ => exact .inr (.inr ⟨_, hdata, by simp, by simp⟩)

theorem Proper.exists_lookup (h : t.Proper known id) : ∃ data, t.lookup id = some data := by
  rcases h.known_cases with rfl | ⟨reason, rfl⟩ | ⟨data, hdata, -⟩
  · exact ⟨.never, rfl⟩
  · exact ⟨_, t.lookup_any reason⟩
  · exact ⟨data, hdata⟩

theorem Proper.eq_never (h : t.Proper known id) (hdata : t.lookup id = some .never) :
    id = .never := by
  rcases h.known_cases with rfl | ⟨reason, rfl⟩ | ⟨data, hdata', hnever, -⟩
  · rfl
  · cases hdata.symm.trans (t.lookup_any reason)
  · exact absurd (Option.some.inj (hdata'.symm.trans hdata)) hnever

theorem Proper.eq_any (h : t.Proper known id) {reason : AnyReason}
    (hdata : t.lookup id = some (.any reason)) : id = .any reason := by
  rcases h.known_cases with rfl | ⟨other, rfl⟩ | ⟨data, hdata', -, hany⟩
  · cases hdata
  · obtain rfl := TypeData.any.inj (Option.some.inj (hdata.symm.trans (t.lookup_any other)))
    rfl
  · exact absurd (Option.some.inj (hdata'.symm.trans hdata)) (hany reason)

/-- A type is like itself. -/
theorem alikeTo_self {id : TypeId} (h : t.Proper known id) (depth : Nat) :
    t.AlikeTo depth id id := by
  induction depth generalizing id with
  | zero => trivial
  | succ depth ih =>
    obtain ⟨data, hdata⟩ := h.exists_lookup
    refine ⟨data, data, hdata, hdata, ?_⟩
    have hchild : ∀ c ∈ t.childrenOf data, t.AlikeTo depth c c := by
      intro c hc
      rw [← children_of_lookup hdata] at hc
      exact ih (h.of_mem_children c hc)
    cases data with
    | never => exact .never
    | any reason => exact .any reason
    | param p => exact .param p
    | inst i => exact .inst rfl (List.forall₂_same.mpr hchild)
    | tuple list =>
      exact .tuple (List.forall₂_same.mpr fun e he => ⟨rfl, hchild _ (List.mem_map_of_mem he)⟩)
    | union list => exact .union (fun m hm => ⟨m, hm, hchild m hm⟩) fun m hm => ⟨m, hm, hchild m hm⟩

/-- Types that are alike deeper than they go are the same. -/
theorem eq_of_alikeTo (hwf : t.WellFormed) {rank : TypeId → Nat}
    (hrank : ∀ id, ∀ c ∈ t.children id, rank c < rank id) {depth : Nat} {a b : TypeId}
    (ha : t.Proper known a) (hb : t.Proper known b) (hdepth : rank a < depth)
    (h : t.AlikeTo depth a b) : a = b := by
  induction depth generalizing a b with
  | zero => omega
  | succ depth ih =>
    obtain ⟨data, data', hdata, hdata', hmatch⟩ := h
    -- by induction the children are equal where they are alike
    have hchild : ∀ x ∈ t.childrenOf data, ∀ y ∈ t.childrenOf data', t.AlikeTo depth x y →
        x = y := by
      intro x hx y hy hxy
      rw [← children_of_lookup hdata] at hx
      rw [← children_of_lookup hdata'] at hy
      have hless := hrank a x hx
      exact ih (ha.of_mem_children x hx) (hb.of_mem_children y hy) (by omega) hxy
    have hissued := hwf.issuedData_of_lookup hdata
    have hissued' := hwf.issuedData_of_lookup hdata'
    cases hmatch with
    | never => exact (ha.eq_never hdata).trans (hb.eq_never hdata').symm
    | any reason => exact (ha.eq_any hdata).trans (hb.eq_any hdata').symm
    | param p => exact hwf.lookup_inj (by simp) (by simp) hdata hdata'
    | @inst i j hhead hargs =>
      have heq : t.args i = t.args j := by
        rw [← List.forall₂_eq_eq_eq]
        exact forall₂_imp_mem hargs hchild
      obtain rfl := hwf.instance_inj hissued hissued' hhead heq
      exact hwf.lookup_inj (by simp) (by simp) hdata hdata'
    | @tuple list list' hes =>
      have heq : t.elementList list = t.elementList list' := by
        rw [← List.forall₂_eq_eq_eq]
        refine forall₂_imp_mem hes fun e he e' he' h => ?_
        have hitem := hchild _ (List.mem_map_of_mem he) _ (List.mem_map_of_mem he') h.2
        cases e
        cases e'
        exact congrArg₂ Element.mk hitem h.1
      obtain rfl := hwf.elementList_inj hissued hissued' heq
      exact hwf.lookup_inj (by simp) (by simp) hdata hdata'
    -- the members match as sets, and both lists ascend
    | @union list list' hms hms' =>
      have heq : t.typeList list = t.typeList list' := by
        refine eq_of_ascend (ha.normal_of_union hdata).ascend (hb.normal_of_union hdata').ascend ?_
        intro x
        constructor
        · intro hx
          obtain ⟨y, hy, hxy⟩ := hms x hx
          rwa [hchild x hx y hy hxy]
        · intro hy
          obtain ⟨x', hx', hxy⟩ := hms' x hy
          rwa [← hchild x' hx' x hy hxy]
      obtain rfl := hwf.typeList_inj hissued hissued' heq
      exact hwf.lookup_inj (by simp) (by simp) hdata hdata'

theorem alike_iff_eq (hwf : t.WellFormed) {a b : TypeId} (ha : t.Proper known a)
    (hb : t.Proper known b) : a = b ↔ t.Alike a b := by
  constructor
  · rintro rfl
    exact alikeTo_self ha
  · intro h
    obtain ⟨rank, hrank⟩ := hwf.ranked
    exact eq_of_alikeTo hwf (fun id => (hrank id).2) ha hb (Nat.lt_succ_self _) (h _)

/-! ## All calls -/

/-- A call on what calls have built builds such a type again. -/
theorem Call.conforms (hwf : t.WellFormed) {c : Call}
    (hc : ∀ x ∈ c.operands, Conforms known x t) : Repeatable t c.build (Conforms known) := by
  cases c with
  | any reason =>
    have hleaf : known.leaf (.any reason) := .inr ⟨reason, rfl⟩
    exact .pure hwf (Proper.leaf (TypeId.isIntrinsic_any reason) hleaf).conforms
  | param p => exact conforms_param hwf trivial
  | inst head args =>
    refine (conforms_apply hwf trivial hc).bind ?_
    rintro i t₁ _ hwf₁ _ ⟨-, -, hi⟩
    exact conforms_inst hwf₁ hi
  | tuple elements =>
    exact conforms_tuple hwf fun e he => hc e.item (List.mem_map_of_mem he)
  | union members => exact conforms_union hwf hc fun _ => .inl rfl

/-- What holds after any number of calls. -/
structure Issues.Sound (log : List (Call × TypeId)) (t : Interner) : Prop where
  wellFormed : t.WellFormed
  conforms : ∀ entry ∈ log, Conforms known entry.2 t
  operands_issued : ∀ entry ∈ log, ∀ x ∈ entry.1.operands, t.Issued x
  describes : t.HasRoom → ∀ entry ∈ log, entry.1.Describes t entry.2

theorem Issues.sound {log : List (Call × TypeId)} (h : Issues log t) : Issues.Sound log t := by
  induction h with
  | start =>
    refine ⟨.empty, ?_, ?_, ?_⟩ <;> simp
  | @call log t h c hc ih =>
    have hoperands : ∀ x ∈ c.operands, Conforms known x t := by
      intro x hx
      obtain ⟨entry, hentry, rfl⟩ := List.mem_map.mp (hc x hx)
      exact ih.conforms entry hentry
    have hnew := Call.conforms ih.wellFormed hoperands
    refine ⟨hnew.wellFormed, ?_, ?_, ?_⟩
    · intro entry hentry
      rcases List.mem_cons.mp hentry with rfl | hentry
      · exact hnew.post
      · exact lasting_conforms known _ _ _ ih.wellFormed hnew.le (ih.conforms entry hentry)
    · intro entry hentry x hx
      rcases List.mem_cons.mp hentry with rfl | hentry
      · exact (hoperands x hx).1.of_le hnew.le
      · exact (ih.operands_issued entry hentry x hx).of_le hnew.le
    · intro hroom entry hentry
      rcases List.mem_cons.mp hentry with rfl | hentry
      · exact (hnew.settled.finds hnew.wellFormed).describes hnew.wellFormed hroom
      · exact (ih.describes (hroom.of_le hnew.le) entry hentry).of_le ih.wellFormed hnew.le
          (ih.operands_issued entry hentry)

/-- Handles are equal just if they stand for equal structures, as long as no shard is full. What
a handle stands for is what it has been issued for, and stays so whatever is interned later. -/
theorem Issues.handles_exact {log : List (Call × TypeId)} (h : Issues log t) (hroom : t.HasRoom) :
    (∀ a ∈ log.map Prod.snd, ∀ b ∈ log.map Prod.snd, a = b ↔ t.Alike a b) ∧
      ∀ entry ∈ log, ∀ t', Relation.ReflTransGen Builds t t' → entry.1.Describes t' entry.2 := by
  have hsound := h.sound
  have hspans : Spans known t := ⟨.inr ⟨_, rfl⟩, fun a ha hintrinsic => by
    rw [hroom.exact a ha] at hintrinsic
    cases hintrinsic⟩
  have hproper : ∀ a ∈ log.map Prod.snd, t.Proper known a := by
    intro a ha
    obtain ⟨entry, hentry, rfl⟩ := List.mem_map.mp ha
    exact (hsound.conforms entry hentry).2 hspans
  refine ⟨fun a ha b hb => alike_iff_eq hsound.wellFormed (hproper a ha) (hproper b hb), ?_⟩
  intro entry hentry t' hlater
  have hle : t ≤ t' ∧ t'.WellFormed := by
    induction hlater with
    | refl => exact ⟨t.le_refl, hsound.wellFormed⟩
    | tail _ hstep ih =>
      obtain ⟨hle, hwf⟩ := hstep.grows ih.2
      exact ⟨Interner.le_trans ih.1 hle, hwf⟩
  exact (hsound.describes hroom entry hentry).of_le hsound.wellFormed hle.1
    (hsound.operands_issued entry hentry)

end

/-- A parameter and a class, then the union of both, written in either order. -/
def joinedTwice : List (Call × TypeId) :=
  [(.union [⟨31⟩, ⟨39⟩], ⟨32⟩), (.union [⟨39⟩, ⟨31⟩], ⟨32⟩), (.inst ⟨3⟩ [], ⟨31⟩),
    (.param ⟨⟨1⟩, "T"⟩, ⟨39⟩)]

theorem joinedTwice_handles_exact : ∃ t, Issues joinedTwice t ∧ t.HasRoom ∧
    (∀ a ∈ joinedTwice.map Prod.snd, ∀ b ∈ joinedTwice.map Prod.snd, a = b ↔ t.Alike a b) ∧
    Call.Describes t ⟨32⟩ (.union [⟨31⟩, ⟨39⟩]) := by
  have hcalls := (((Issues.start.call (.param ⟨⟨1⟩, "T"⟩) (by decide)).call (.inst ⟨3⟩ [])
    (by decide)).call (.union [⟨39⟩, ⟨31⟩]) (by decide)).call (.union [⟨31⟩, ⟨39⟩]) (by decide)
  have hissues : Issues joinedTwice _ := hcalls
  refine ⟨_, hissues, hasRoom_of_size (by decide), ?_⟩
  obtain ⟨halike, hdescribes⟩ := hissues.handles_exact (hasRoom_of_size (by decide))
  exact ⟨halike, hdescribes _ List.mem_cons_self _ .refl⟩

end Interner

end Supertypes
