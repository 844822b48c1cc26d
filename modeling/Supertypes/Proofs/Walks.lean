import Mathlib.Data.Finset.Lattice.Lemmas
import Supertypes.Proofs.Mentions

/-!
# Walks meet each type once

A walk over a type is a loop over a stack of handles that calls back for every known type it
meets and may be stopped by the call. It is stated here as a relation, without a bound on its
steps, so that to be related is to have come to an end.

- `Search.Explores`: the loop over a graph. `Search.explores_explore` says that it ends and meets
  what `Search.explore` lists, `Search.Explores.parent_before` that a node comes after one of
  those that lead to it.
- `Interner.Walks`: the loop over the handles of a type, with its calls. `Interner.walks_iff`
  says that it always ends, having called for a front part of `Interner.walk`.
- `Interner.walk_exact`: for every handle the walk lists the known types that occur in it, once
  each and parents first, and the readers of a walk answer what their loops do.
-/

namespace Supertypes

/-! ## Loops over a graph -/

namespace Search

variable {α : Type} [DecidableEq α] {next : α → List α} {roots stack seen met : List α}

/-- A search goes on with some nodes to visit, the next one first, and some that have been met.
It ends, and lists the nodes that it meets from here on. -/
inductive Explores (next : α → List α) : List α → List α → List α → Prop
  | done (seen : List α) : Explores next [] seen []
  | again {x : α} {stack seen met : List α} (hseen : x ∈ seen)
    (hrest : Explores next stack seen met) : Explores next (x :: stack) seen met
  | visit {x : α} {stack seen met : List α} (hnew : x ∉ seen)
    (hrest : Explores next ((next x).reverse ++ stack) (seen ++ [x]) met) :
    Explores next (x :: stack) seen (x :: met)

theorem Explores.of_dropWhile (h : Explores next (stack.dropWhile (· ∈ seen)) seen met) :
    Explores next stack seen met := by
  induction stack with
  | nil => exact h
  | cons x stack ih =>
    by_cases hx : x ∈ seen
    · rw [List.dropWhile_cons, if_pos (decide_eq_true hx)] at h
      exact .again hx (ih h)
    · rwa [List.dropWhile_cons, if_neg (by simpa using hx)] at h

/-- With nothing new on the stack the search is over. -/
theorem explores_nil (hstack : ∀ x ∈ stack, x ∈ seen) : Explores next stack seen [] := by
  refine .of_dropWhile ?_
  rw [List.dropWhile_eq_nil_iff.mpr fun x hx => decide_eq_true (hstack x hx)]
  exact .done seen

/-- A search with enough fuel comes to its end. -/
theorem explores_explore {nodes : List α} (hnodes : ∀ x, Reached next roots x → x ∈ nodes)
    {fuel : Nat} (h : Frontier next roots stack seen)
    (hfuel : nodes.length ≤ seen.length + fuel) :
    ∃ met, Explores next stack seen met ∧ explore next fuel stack seen = seen ++ met := by
  induction fuel generalizing stack seen with
  | zero =>
    -- as many nodes have been met as there are
    have hsub : seen ⊆ nodes := fun y hy => hnodes y (h.seen_reached y hy)
    have hperm : seen.Perm nodes := (h.nodup.subperm hsub).perm_of_length_le hfuel
    refine ⟨[], explores_nil fun x hx => ?_, (List.append_nil seen).symm⟩
    exact hperm.mem_iff.mpr (hnodes x (h.stack_reached x hx))
  | succ fuel ih =>
    have hskip := h.skip
    rw [explore]
    split
    · rename_i hdrop
      refine ⟨[], .of_dropWhile ?_, (List.append_nil seen).symm⟩
      rw [hdrop]
      exact .done seen
    · rename_i node rest hdrop
      have hnew := not_mem_of_dropWhile_eq_cons hdrop
      rw [hdrop] at hskip
      obtain ⟨met, hexplores, heq⟩ := ih (hskip.visit hnew) (by
        rw [List.length_append, List.length_singleton]
        omega)
      refine ⟨node :: met, .of_dropWhile ?_, ?_⟩
      · rw [hdrop]
        exact .visit hnew hexplores
      · rw [heq, List.append_assoc]
        rfl

omit [DecidableEq α] in
/-- No node is met twice. -/
theorem Explores.nodup (h : Explores next stack seen met) :
    met.Nodup ∧ ∀ x ∈ met, x ∉ seen := by
  induction h with
  | done seen => exact ⟨List.nodup_nil, fun x hx => absurd hx List.not_mem_nil⟩
  | again _ _ ih => exact ih
  | @visit x stack seen met hnew _ ih =>
    obtain ⟨hnodup, hfresh⟩ := ih
    refine ⟨List.nodup_cons.mpr ⟨fun hx => ?_, hnodup⟩, List.forall_mem_cons.mpr ⟨hnew, ?_⟩⟩
    · exact hfresh x hx (List.mem_append_right _ (List.mem_singleton_self x))
    · exact fun y hy hseen => hfresh y hy (List.mem_append_left _ hseen)

omit [DecidableEq α] in
/-- A node that is not among the roots is met after one that leads to it, if what waits is led to
by what has been met. -/
theorem Explores.parent_before (h : Explores next stack seen met)
    (hstack : ∀ x ∈ stack, x ∈ roots ∨ ∃ p ∈ seen, x ∈ next p) {before after : List α} {x : α}
    (hsplit : met = before ++ x :: after) :
    x ∈ roots ∨ ∃ p ∈ seen ++ before, x ∈ next p := by
  induction h generalizing before with
  | done seen => simp at hsplit
  | again _ _ ih => exact ih (List.forall_mem_cons.mp hstack).2 hsplit
  | @visit y stack seen met _ _ ih =>
    obtain ⟨hy, hrest⟩ := List.forall_mem_cons.mp hstack
    cases before with
    | nil =>
      obtain ⟨rfl, -⟩ := List.cons.inj hsplit
      rwa [List.append_nil]
    | cons z before =>
      obtain ⟨rfl, hmet⟩ := List.cons.inj hsplit
      have hnext : ∀ w ∈ (next y).reverse ++ stack,
          w ∈ roots ∨ ∃ p ∈ seen ++ [y], w ∈ next p := by
        intro w hw
        rcases List.mem_append.mp hw with hw | hw
        · -- the successors of the node just met
          exact .inr ⟨y, by simp, List.mem_reverse.mp hw⟩
        · exact (hrest w hw).imp_right fun ⟨p, hp, hw⟩ => ⟨p, List.mem_append_left _ hp, hw⟩
      simpa using ih hnext hmet

theorem nodup_firstSeen (xs : List α) : (firstSeen xs).Nodup := by
  suffices general : ∀ seen : List α, seen.Nodup →
      (xs.foldl (fun seen x => if x ∈ seen then seen else seen ++ [x]) seen).Nodup from
    general [] List.nodup_nil
  induction xs with
  | nil => exact fun seen hseen => hseen
  | cons x xs ih =>
    intro seen hseen
    refine ih _ ?_
    dsimp only
    split
    · exact hseen
    · rename_i hnew
      refine List.nodup_append.mpr ⟨hseen, List.nodup_singleton x, ?_⟩
      rintro y hy z hz rfl
      exact hnew (List.mem_singleton.mp hz ▸ hy)

end Search

/-! ## Loops over a type -/

variable [Digest TypeData]

namespace Interner

variable {σ : Type} {t : Interner} {call : TypeId → TypeData → StateM σ Bool}
  {stack seen calls met : List TypeId} {s s' : σ} {root x : TypeId}

/-- A walk goes on with some handles to visit, the next one first, and some that have been seen.
It calls back for each new handle that stands for something, with what that is, and goes on with
the children if the call says so. It ends, having called for some handles, with the state that
the calls have left. -/
inductive Walks (t : Interner) (call : TypeId → TypeData → StateM σ Bool) :
    List TypeId → List TypeId → σ → List TypeId → σ → Prop
  | done (seen : List TypeId) (s : σ) : Walks t call [] seen s [] s
  | again {x : TypeId} {stack seen calls : List TypeId} {s s' : σ} (hseen : x ∈ seen)
    (hrest : Walks t call stack seen s calls s') : Walks t call (x :: stack) seen s calls s'
  | unknown {x : TypeId} {stack seen calls : List TypeId} {s s' : σ} (hnew : x ∉ seen)
    (hdata : t.lookup x = none) (hrest : Walks t call stack (x :: seen) s calls s') :
    Walks t call (x :: stack) seen s calls s'
  | stop {x : TypeId} {data : TypeData} {stack seen : List TypeId} {s s' : σ} (hnew : x ∉ seen)
    (hdata : t.lookup x = some data) (hcall : (call x data).run s = (false, s')) :
    Walks t call (x :: stack) seen s [x] s'
  | go {x : TypeId} {data : TypeData} {stack seen calls : List TypeId} {s s₁ s' : σ}
    (hnew : x ∉ seen) (hdata : t.lookup x = some data) (hcall : (call x data).run s = (true, s₁))
    (hrest : Walks t call ((t.children x).reverse ++ stack) (x :: seen) s₁ calls s') :
    Walks t call (x :: stack) seen s (x :: calls) s'

/-- A walk has one outcome. -/
theorem Walks.unique {calls' : List TypeId} {s'' : σ} (h : t.Walks call stack seen s calls s')
    (h' : t.Walks call stack seen s calls' s'') : calls' = calls ∧ s'' = s' := by
  -- what the search has seen and what the handle stands for decide which rule applies
  induction h generalizing calls' s'' with
  | done =>
    cases h' with
    | done => exact ⟨rfl, rfl⟩
  | again hseen _ ih =>
    cases h' with
    | again _ hrest' => exact ih hrest'
    | unknown hnew => exact absurd hseen hnew
    | stop hnew => exact absurd hseen hnew
    | go hnew => exact absurd hseen hnew
  | unknown hnew hdata _ ih =>
    cases h' with
    | again hseen => exact absurd hseen hnew
    | unknown _ _ hrest' => exact ih hrest'
    | stop _ hdata' => cases hdata.symm.trans hdata'
    | go _ hdata' => cases hdata.symm.trans hdata'
  | stop hnew hdata hcall =>
    cases h' with
    | again hseen => exact absurd hseen hnew
    | unknown _ hdata' => cases hdata.symm.trans hdata'
    | stop _ hdata' hcall' =>
      obtain rfl := Option.some.inj (hdata.symm.trans hdata')
      exact ⟨rfl, (Prod.mk.inj (hcall'.symm.trans hcall)).2⟩
    | go _ hdata' hcall' =>
      obtain rfl := Option.some.inj (hdata.symm.trans hdata')
      cases hcall.symm.trans hcall'
  | go hnew hdata hcall _ ih =>
    cases h' with
    | again hseen => exact absurd hseen hnew
    | unknown _ hdata' => cases hdata.symm.trans hdata'
    | stop _ hdata' hcall' =>
      obtain rfl := Option.some.inj (hdata.symm.trans hdata')
      cases hcall.symm.trans hcall'
    | go _ hdata' hcall' hrest' =>
      obtain rfl := Option.some.inj (hdata.symm.trans hdata')
      obtain ⟨-, rfl⟩ := Prod.mk.inj (hcall.symm.trans hcall')
      obtain ⟨rfl, rfl⟩ := ih hrest'
      exact ⟨rfl, rfl⟩

/-- Call back for some handles in order, until a call says to stop. -/
def callsOf (t : Interner) (call : TypeId → TypeData → StateM σ Bool) :
    List TypeId → StateM σ (List TypeId)
  | [] => pure []
  | x :: rest => do
    if ← (t.lookup x).elim (pure true) (call x) then return x :: (← t.callsOf call rest)
    else return [x]

theorem callsOf_stop {data : TypeData} {s₁ : σ} {rest : List TypeId}
    (hdata : t.lookup x = some data) (hcall : (call x data).run s = (false, s₁)) :
    (t.callsOf call (x :: rest)).run s = ([x], s₁) := by
  rw [callsOf, hdata, StateT.run_bind]
  dsimp only [Option.elim]
  rw [hcall]
  rfl

theorem callsOf_go {data : TypeData} {s₁ : σ} {rest : List TypeId}
    (hdata : t.lookup x = some data) (hcall : (call x data).run s = (true, s₁)) :
    (t.callsOf call (x :: rest)).run s =
      (x :: ((t.callsOf call rest).run s₁).1, ((t.callsOf call rest).run s₁).2) := by
  rw [callsOf, hdata, StateT.run_bind]
  dsimp only [Option.elim]
  rw [hcall]
  rfl

/-- Handles that stand for nothing make no difference to a walk. -/
theorem Walks.after_unknown {before : List TypeId} (hbefore : ∀ x ∈ before, t.isKnown x = false)
    (h : ∀ seen', (∀ y, t.isKnown y = true → (y ∈ seen' ↔ y ∈ seen)) →
      t.Walks call stack seen' s calls s') : t.Walks call (before ++ stack) seen s calls s' := by
  induction before generalizing seen with
  | nil => exact h seen fun _ _ => Iff.rfl
  | cons x before ih =>
    obtain ⟨hx, hbefore⟩ := List.forall_mem_cons.mp hbefore
    by_cases hseen : x ∈ seen
    · exact .again hseen (ih hbefore h)
    · refine .unknown hseen (Option.isNone_iff_eq_none.mp (by simpa [isKnown] using hx)) ?_
      refine ih hbefore fun seen' hseen' => h seen' fun y hy => ?_
      have hne : y ≠ x := by
        rintro rfl
        rw [hy] at hx
        cases hx
      rw [hseen' y hy, List.mem_cons]
      exact or_iff_right hne

/-- A walk calls for what a search among the known types meets. -/
theorem walks_of_explores {known : List TypeId}
    (h : Search.Explores (fun id => (t.children id).filter t.isKnown) known met calls)
    (hstack : stack.filter t.isKnown = known)
    (hseen : ∀ y, t.isKnown y = true → (y ∈ seen ↔ y ∈ met)) :
    t.Walks call stack seen s ((t.callsOf call calls).run s).1
      ((t.callsOf call calls).run s).2 := by
  induction h generalizing stack seen s with
  | done met =>
    -- nothing known is left on the stack: the walk passes over the rest
    rw [List.filter_eq_nil_iff] at hstack
    rw [← List.append_nil stack]
    exact .after_unknown (fun x hx => by simpa using hstack x hx) fun seen' _ => .done seen' s
  | @again x _ met calls hmet _ ih =>
    -- what lies above the next known node is unknown, and is passed over
    obtain ⟨before, rest, rfl, hbefore, hknown, hrest⟩ := List.filter_eq_cons_iff.mp hstack
    refine .after_unknown (fun y hy => by simpa using hbefore y hy) fun seen' hseen' => ?_
    refine .again ((hseen' x hknown).mpr ((hseen x hknown).mpr hmet)) (ih hrest fun y hy => ?_)
    rw [hseen' y hy, hseen y hy]
  | @visit x _ met calls hnew _ ih =>
    obtain ⟨before, rest, rfl, hbefore, hknown, hrest⟩ := List.filter_eq_cons_iff.mp hstack
    refine .after_unknown (fun y hy => by simpa using hbefore y hy) fun seen' hseen' => ?_
    have hfresh : x ∉ seen' := fun hx => hnew ((hseen x hknown).mp ((hseen' x hknown).mp hx))
    obtain ⟨data, hdata⟩ := Option.isSome_iff_exists.mp hknown
    -- the callback decides whether the walk goes on
    rcases hcall : (call x data).run s with ⟨goOn, s₁⟩
    cases goOn with
    | false =>
      rw [callsOf_stop hdata hcall]
      exact .stop hfresh hdata hcall
    | true =>
      rw [callsOf_go hdata hcall]
      refine .go hfresh hdata hcall (ih ?_ fun y hy => ?_)
      · rw [List.filter_append, List.filter_reverse, hrest]
      · rw [List.mem_cons, List.mem_append, List.mem_singleton, hseen' y hy, hseen y hy, or_comm]

/-- The walk from the start, as a search among the known types. -/
theorem explores_walk (t : Interner) (root : TypeId) :
    Search.Explores (fun id => (t.children id).filter t.isKnown)
      ([root].filter t.isKnown).reverse [] (t.walk root) := by
  have hnodes : ∀ y, Search.Reached (fun id => (t.children id).filter t.isKnown)
      ([root].filter t.isKnown) y → y ∈ t.knownHandles :=
    fun y hy => mem_knownHandles (reached_iff.mp hy).2
  obtain ⟨met, hmet, heq⟩ := Search.explores_explore hnodes (.start _ _)
    (show t.knownHandles.length ≤ ([] : List TypeId).length + t.knownBound from
      (Nat.le_of_eq t.length_knownHandles).trans (Nat.le_add_left _ _))
  rwa [show t.walk root = met from heq]

/-- A walk always ends, and in one way: it makes the calls for the types that `walk` lists, in
order, until one of them says to stop. -/
theorem walks_iff : t.Walks call [root] [] s calls s' ↔
    (t.callsOf call (t.walk root)).run s = (calls, s') := by
  have hreverse : [root].filter t.isKnown = ([root].filter t.isKnown).reverse := by
    by_cases hroot : t.isKnown root = true <;> simp [hroot]
  have hwalk : t.Walks call [root] [] s ((t.callsOf call (t.walk root)).run s).1
      ((t.callsOf call (t.walk root)).run s).2 :=
    walks_of_explores (t.explores_walk root) hreverse fun _ _ => Iff.rfl
  constructor
  · intro h
    obtain ⟨rfl, rfl⟩ := hwalk.unique h
    rfl
  · intro h
    rwa [h] at hwalk

theorem exists_walks_calls_iff : (∃ s', t.Walks call [root] [] s calls s') ↔
    calls = ((t.callsOf call (t.walk root)).run s).1 := by
  constructor
  · rintro ⟨s', h⟩
    rw [walks_iff.mp h]
  · rintro rfl
    exact ⟨_, walks_iff.mpr rfl⟩

theorem exists_walks_state_iff : (∃ calls, t.Walks call [root] [] s calls s') ↔
    s' = ((t.callsOf call (t.walk root)).run s).2 := by
  constructor
  · rintro ⟨calls, h⟩
    rw [walks_iff.mp h]
  · rintro rfl
    exact ⟨_, walks_iff.mpr rfl⟩

/-! ## What walks are for -/

/-- Call back and always go on. -/
def goingOn (visit : TypeId → TypeData → StateM σ Unit) (x : TypeId) (data : TypeData) :
    StateM σ Bool := do
  visit x data
  return true

/-- Note whether the type is a parameter, and stop if it is. -/
def findParam (_ : TypeId) (data : TypeData) : StateM Bool Bool := do
  let found := match data with
    | .param _ => true
    | _ => false
  set found
  return !found

/-- Add the identity of the type if it is a parameter. -/
def addParam (_ : TypeId) (data : TypeData) : StateM (Finset ParamId) Unit :=
  match data with
  | .param p => modify (insert p.id)
  | _ => pure ()

/-- Put the class of the type, if it is an instance, behind those that came before. -/
def addClass (_ : TypeId) (data : TypeData) : StateM (List ClassId) Unit :=
  match data with
  | .inst i => modify fun cs => if i.head ∈ cs then cs else cs ++ [i.head]
  | _ => pure ()

variable {ids : List TypeId} {visit : TypeId → TypeData → StateM σ Unit}

theorem callsOf_goingOn (hids : ∀ x ∈ ids, t.isKnown x = true) (s : σ) :
    ((t.callsOf (goingOn visit) ids).run s).1 = ids := by
  induction ids generalizing s with
  | nil => rfl
  | cons x ids ih =>
    obtain ⟨hx, hids⟩ := List.forall_mem_cons.mp hids
    obtain ⟨data, hdata⟩ := Option.isSome_iff_exists.mp hx
    rw [callsOf_go hdata rfl]
    exact congrArg (x :: ·) (ih hids _)

theorem callsOf_findParam (hids : ∀ x ∈ ids, t.isKnown x = true) :
    ((t.callsOf findParam ids).run false).2 = ids.any fun x => (t.param? x).isSome := by
  induction ids with
  | nil => rfl
  | cons x ids ih =>
    obtain ⟨hx, hids⟩ := List.forall_mem_cons.mp hids
    obtain ⟨data, hdata⟩ := Option.isSome_iff_exists.mp hx
    rw [List.any_cons, param?, hdata]
    cases data with
    | param p => rw [callsOf_stop hdata rfl]; rfl
    | _ =>
      rw [callsOf_go hdata rfl]
      exact ih hids

theorem callsOf_addParam (hids : ∀ x ∈ ids, t.isKnown x = true) (out : Finset ParamId) :
    ((t.callsOf (goingOn addParam) ids).run out).2 =
      out ∪ (ids.filterMap fun x => (t.param? x).map Param.id).toFinset := by
  induction ids generalizing out with
  | nil => exact (Finset.union_empty out).symm
  | cons x ids ih =>
    obtain ⟨hx, hids⟩ := List.forall_mem_cons.mp hids
    obtain ⟨data, hdata⟩ := Option.isSome_iff_exists.mp hx
    rw [callsOf_go hdata rfl]
    refine (ih hids _).trans ?_
    rw [List.filterMap_cons, param?, hdata]
    cases data with
    | param p =>
      show insert p.id out ∪ _ = out ∪ List.toFinset (p.id :: _)
      rw [List.toFinset_cons, Finset.insert_union, Finset.union_insert]
    | _ => rfl

theorem callsOf_addClass (hids : ∀ x ∈ ids, t.isKnown x = true) (cs : List ClassId) :
    ((t.callsOf (goingOn addClass) ids).run cs).2 =
      (ids.filterMap fun x => (t.instance? x).map Instance.head).foldl
        (fun seen c => if c ∈ seen then seen else seen ++ [c]) cs := by
  induction ids generalizing cs with
  | nil => rfl
  | cons x ids ih =>
    obtain ⟨hx, hids⟩ := List.forall_mem_cons.mp hids
    obtain ⟨data, hdata⟩ := Option.isSome_iff_exists.mp hx
    rw [callsOf_go hdata rfl]
    refine (ih hids _).trans ?_
    rw [List.filterMap_cons, instance?, hdata]
    cases data <;> rfl

/-- The known types come after one of their parents, the root apart. -/
theorem parent_before_walk {before after : List TypeId}
    (hsplit : t.walk root = before ++ x :: after) (hne : x ≠ root) :
    ∃ p ∈ before, x ∈ t.children p := by
  have hroots : ∀ y ∈ ([root].filter t.isKnown).reverse, y ∈ [root] ∨
      ∃ p ∈ ([] : List TypeId), y ∈ (t.children p).filter t.isKnown :=
    fun y hy => .inl (List.mem_of_mem_filter (List.mem_reverse.mp hy))
  rcases (t.explores_walk root).parent_before hroots hsplit with hroot | ⟨p, hp, hx⟩
  · exact absurd (List.mem_singleton.mp hroot) hne
  · exact ⟨p, hp, List.mem_of_mem_filter hx⟩

/-- Whatever the handle and the tables, a walk whose calls never stop it ends, having called once
for each known type that occurs in the type and for no other, and for each but the root after a
parent of it. The loops that look for a parameter, collect parameters and collect classes end,
and they do what `mentionsParam`, `params` and `classes` say: there is a parameter just if some
are collected, and collected are the identities of the parameters and the classes of the
instances that occur, each class once. -/
theorem walk_exact (t : Interner) (root : TypeId) :
    (∀ (σ : Type) (visit : TypeId → TypeData → StateM σ Unit) (s : σ) (calls : List TypeId),
      (∃ s', t.Walks (goingOn visit) [root] [] s calls s') ↔ calls = t.walk root) ∧
    (t.walk root).Nodup ∧
    (∀ x, x ∈ t.walk root ↔ t.Occurs root x ∧ t.isKnown x = true) ∧
    (∀ before x after, t.walk root = before ++ x :: after → x ≠ root →
      ∃ p ∈ before, x ∈ t.children p) ∧
    (∀ found, (∃ calls, t.Walks findParam [root] [] false calls found) ↔
      found = t.mentionsParam root) ∧
    (∀ out out', (∃ calls, t.Walks (goingOn addParam) [root] [] out calls out') ↔
      out' = out ∪ (t.params root).toFinset) ∧
    (∀ cs, (∃ calls, t.Walks (goingOn addClass) [root] [] [] calls cs) ↔ cs = t.classes root) ∧
    (t.mentionsParam root = true ↔ t.params root ≠ []) ∧
    (∀ p, p ∈ t.params root ↔ ∃ x q, t.Occurs root x ∧ t.lookup x = some (.param q) ∧ q.id = p) ∧
    (∀ c, c ∈ t.classes root ↔ ∃ x i, t.Occurs root x ∧ t.lookup x = some (.inst i) ∧ i.head = c) ∧
    (t.classes root).Nodup := by
  have hknown : ∀ x ∈ t.walk root, t.isKnown x = true := fun x hx => (mem_walk_iff.mp hx).2
  have hparams : ∀ p, p ∈ t.params root ↔
      ∃ x q, t.Occurs root x ∧ t.lookup x = some (.param q) ∧ q.id = p := by
    intro p
    rw [mem_params_iff]
    constructor
    · rintro ⟨q, ⟨x, hx, hq⟩, hp⟩
      exact ⟨x, q, hx, hq, hp⟩
    · rintro ⟨x, q, hx, hq, hp⟩
      exact ⟨q, ⟨x, hx, hq⟩, hp⟩
  refine ⟨fun σ visit s calls => ?_, (t.explores_walk root).nodup.1, fun x => mem_walk_iff,
    fun before x after => parent_before_walk, fun found => ?_, fun out out' => ?_, fun cs => ?_, ?_,
    hparams, fun c => mem_classes_iff, Search.nodup_firstSeen _⟩
  -- the calls, and then the three clients one by one
  · rw [exists_walks_calls_iff, callsOf_goingOn hknown]
  · rw [exists_walks_state_iff, callsOf_findParam hknown]
    rfl
  · have hset : (t.params root).toFinset =
        ((t.walk root).filterMap fun x => (t.param? x).map Param.id).toFinset := by
      ext p
      simp [params]
    rw [exists_walks_state_iff, callsOf_addParam hknown, hset]
  · rw [exists_walks_state_iff, callsOf_addClass hknown]
    rfl
  · rw [mentionsParam_iff]
    constructor
    · rintro ⟨q, hq⟩
      exact List.ne_nil_of_mem (mem_params_iff.mpr ⟨q, hq, rfl⟩)
    · intro hne
      obtain ⟨p, hp⟩ := List.exists_mem_of_ne_nil _ hne
      obtain ⟨q, hq, -⟩ := mem_params_iff.mp hp
      exact ⟨q, hq⟩

end Interner

end Supertypes
