import Mathlib.Logic.Relation
import Supertypes.Classes.Recursion
import Supertypes.Proofs.Guards

/-!
# Recursive shapes

- `Registry.Leads`: the shape of a class mentions another one.
- `Registry.Searching`: the search for a way back to a class, between two of its steps. What has
  been met and left leads to nothing that has not been met.
- `Registry.isRecursiveShape_of_leads_back`: a shape that leads back to its class is found to be
  recursive, for a search that is cut off says so too.
- `Registry.isRecursiveShape_iff`: with no more tuple shapes than the search goes deep, a shape
  is found to be recursive just if it leads back to its class, whatever the order in which the
  classes are searched.
-/

namespace Supertypes.Registry

open Relation

variable [Digest TypeData]

/-- The shape of `c` mentions `d`. -/
def Leads (r : Registry) (types : Interner) (c d : ClassId) : Prop :=
  ∃ shape, r.shape? c = some shape ∧ d ∈ mentioned types shape

/-- The class has a tuple shape. -/
def isShaped (r : Registry) (c : ClassId) : Bool :=
  (r.shape? c).isSome

/-- There are no more tuple shapes than the search for recursive ones goes deep. -/
def FewShapes (r : Registry) : Prop :=
  ∀ cs : List ClassId, cs.Nodup → (∀ c ∈ cs, r.isShaped c = true) → cs.length ≤ Limits.shapes

variable {r : Registry} {types : Interner} {target current c : ClassId} {fuel : Nat}
  {seen seen' : List ClassId} {g g' : Guard ClassId} {pending : List ClassId}

/-! ## Steps of the search -/

/-- Run from these states, the search succeeds only if `found` holds, and leaves states that
satisfy `post` otherwise. -/
def Outcome (x : ShapeSearch Bool) (seen : List ClassId) (g : Guard ClassId) (found : Prop)
    (post : List ClassId → Guard ClassId → Prop) : Prop :=
  if ((x.run seen).run g).1.1 then found
  else post ((x.run seen).run g).1.2 ((x.run seen).run g).2

/-- Looking into a class that a shape mentions. -/
def lookInto (r : Registry) (types : Interner) (target : ClassId) (fuel : Nat) (c : ClassId) :
    ShapeSearch Bool := do
  if c = target then return true
  else if c ∈ (← getThe (List ClassId)) then return false
  else
    modifyThe (List ClassId) (c :: ·)
    shapeReaches r types target fuel c

theorem lookInto_run (c : ClassId) :
    ((r.lookInto types target fuel c).run seen).run g =
      if c = target then ((true, seen), g)
      else if c ∈ seen then ((false, seen), g)
      else ((r.shapeReaches types target fuel c).run (c :: seen)).run g := by
  unfold lookInto
  by_cases htarget : c = target
  · rw [if_pos htarget, if_pos htarget]
    rfl
  · rw [if_neg htarget, if_neg htarget]
    show ((if c ∈ seen then pure false else do
      modifyThe (List ClassId) (c :: ·)
      shapeReaches r types target fuel c : ShapeSearch Bool).run seen).run g = _
    split
    · rfl
    · rfl

omit [Digest TypeData] in
/-- Running a search one class further down, or refusing to. -/
theorem scope_run (body : ShapeSearch Bool) :
    ((Guard.scope current body : ShapeSearch (Except Guard.Entry Bool)).run seen).run g =
      if (g.enter current).1 = .entered then
        let out := (body.run seen).run (g.enter current).2
        ((.ok out.1.1, out.1.2), out.2.leave)
      else ((.error (g.enter current).1, seen), (g.enter current).2) := by
  unfold Guard.scope
  rw [StateT.run_bind, StateT.run_bind]
  show StateT.run (StateT.run _ seen) (g.enter current).2 = _
  have hread :
      ((((getThe (Guard ClassId) : ShapeSearch (Guard ClassId)).run seen).run g).1.1) = g :=
    rfl
  rw [hread]
  have hverdict : g.count.verdict current = (g.enter current).1 := rfl
  rw [hverdict]
  cases (g.enter current).1 <;> rfl

/-- A class with a shape is searched if the guard permits, by looking into what the shape
mentions. -/
theorem shapeReaches_run {shape : TupleShape} (hshape : r.shape? current = some shape)
    (hentered : (g.enter current).1 = .entered) :
    ((r.shapeReaches types target (fuel + 1) current).run seen).run g =
      let out := ((((mentioned types shape).anyM (r.lookInto types target fuel)).run seen).run
        (g.enter current).2)
      (out.1, out.2.leave) := by
  rw [shapeReaches, hshape]
  dsimp only
  rw [StateT.run_bind, StateT.run_bind]
  erw [scope_run]
  rw [if_pos hentered]
  rfl

/-- A class that the guard refuses is not searched. -/
theorem shapeReaches_run_of_refused {shape : TupleShape} (hshape : r.shape? current = some shape)
    (hrefused : (g.enter current).1 ≠ .entered) :
    ((r.shapeReaches types target (fuel + 1) current).run seen).run g =
      (((g.enter current).1.isExceeded, seen), (g.enter current).2) := by
  rw [shapeReaches, hshape]
  dsimp only
  rw [StateT.run_bind, StateT.run_bind]
  erw [scope_run]
  rw [if_neg hrefused]
  rfl

/-! ## What the search knows -/

/-- The search between two steps. The classes on the path of the guard are being searched, those
in `pending` are about to be, and all others that have been met lead to nothing new. -/
structure Searching (r : Registry) (types : Interner) (target : ClassId)
    (pending seen : List ClassId) (g : Guard ClassId) : Prop where
  maxDepth : g.maxDepth = Limits.shapes
  maxIterations : g.maxIterations = Limits.steps
  /-- The class that a way back to is looked for is not met a second time. -/
  met_nodup : (target :: seen).Nodup
  open_nodup : (pending ++ g.path).Nodup
  open_met : ∀ c ∈ pending ++ g.path, c ∈ target :: seen
  path_shaped : ∀ c ∈ g.path, r.isShaped c = true
  left : ∀ c ∈ target :: seen, c ∉ pending ++ g.path → ∀ d, r.Leads types c d → d ∈ seen
  /-- Each class with a shape is entered at most once. -/
  counted : g.iterations + (pending.filter r.isShaped).length ≤
    ((target :: seen).filter r.isShaped).length

namespace Searching

theorem start (r : Registry) (types : Interner) (target : ClassId) :
    Searching r types target [target] [] (.ofProfile .tupleShapes) where
  maxDepth := rfl
  maxIterations := rfl
  met_nodup := List.pairwise_singleton _ target
  open_nodup := List.pairwise_singleton _ target
  open_met _ hc := hc
  path_shaped _ hc := absurd hc List.not_mem_nil
  left _ hc hopen := absurd hc hopen
  counted := Nat.le_of_eq (Nat.zero_add _)

/-- A class is met for the first time. -/
theorem meet (h : Searching r types target [] seen g) (htarget : c ≠ target) (hnew : c ∉ seen) :
    Searching r types target [c] (c :: seen) g := by
  have hnot : c ∉ target :: seen := by
    rw [List.mem_cons, not_or]
    exact ⟨htarget, hnew⟩
  have hpath : c ∉ g.path := fun hc => hnot (h.open_met c hc)
  have hperm : (c :: target :: seen).Perm (target :: c :: seen) := .swap _ _ _
  refine ⟨h.maxDepth, h.maxIterations, ?_, ?_, ?_, h.path_shaped, ?_, ?_⟩
  · exact hperm.nodup_iff.mp (List.nodup_cons.mpr ⟨hnot, h.met_nodup⟩)
  · exact List.nodup_cons.mpr ⟨hpath, h.open_nodup⟩
  · intro d hd
    rw [← hperm.mem_iff]
    rcases List.mem_cons.mp hd with rfl | hd
    · exact List.mem_cons_self
    · exact List.mem_cons_of_mem c (h.open_met d hd)
  · intro d hd hopen e he
    rw [← hperm.mem_iff] at hd
    rcases List.mem_cons.mp hd with rfl | hd
    · exact absurd List.mem_cons_self hopen
    · exact List.mem_cons_of_mem c
        (h.left d hd (fun hd' => hopen (List.mem_cons_of_mem c hd')) e he)
  · have hcounted : g.iterations ≤ ((target :: seen).filter r.isShaped).length := h.counted
    rw [← (hperm.filter _).length_eq]
    by_cases hshaped : r.isShaped c = true
    · rw [List.filter_cons_of_pos hshaped, List.filter_cons_of_pos hshaped]
      exact Nat.succ_le_succ hcounted
    · rw [List.filter_cons_of_neg hshaped, List.filter_cons_of_neg hshaped]
      exact hcounted

/-- A class without a shape leads nowhere. -/
theorem skip (h : Searching r types target [current] seen g) (hshape : r.shape? current = none) :
    Searching r types target [] seen g := by
  refine ⟨h.maxDepth, h.maxIterations, h.met_nodup, (List.nodup_cons.mp h.open_nodup).2,
    fun c hc => h.open_met c (List.mem_cons_of_mem current hc), h.path_shaped, ?_, ?_⟩
  · rintro c hc hopen d ⟨shape, hshape', hd⟩
    refine h.left c hc ?_ d ⟨shape, hshape', hd⟩
    intro hmem
    rcases List.mem_cons.mp hmem with rfl | hmem
    · rw [hshape] at hshape'
      cases hshape'
    · exact hopen hmem
  · exact Nat.le_trans (Nat.add_le_add_left (Nat.zero_le _) _) h.counted

/-- With few shapes the guard never refuses, since the path grows only by classes that are
new. -/
theorem admitted (hfew : r.FewShapes) (h : Searching r types target [current] seen g)
    (hshaped : r.isShaped current = true) : (g.enter current).1 = .entered := by
  have hshapedOpen : ∀ c ∈ current :: g.path, r.isShaped c = true :=
    List.forall_mem_cons.mpr ⟨hshaped, h.path_shaped⟩
  have hdepth : g.path.length + 1 ≤ Limits.shapes := hfew _ h.open_nodup hshapedOpen
  have hcounted : g.iterations + 1 ≤ ((target :: seen).filter r.isShaped).length := by
    have := h.counted
    rwa [List.filter_cons_of_pos hshaped] at this
  have hmet : ((target :: seen).filter r.isShaped).length ≤ Limits.shapes :=
    hfew _ (h.met_nodup.filter _) fun c hc => (List.mem_filter.mp hc).2
  have hcount : g.count.iterations ≤ g.iterations + 1 := Nat.min_le_left _ _
  have hless : Limits.shapes < Limits.steps := by decide
  refine Guard.entered_iff.mpr ⟨?_, ?_, (List.nodup_cons.mp h.open_nodup).1⟩
  · have hlimit := h.maxIterations
    omega
  · have hlimit := h.maxDepth
    exact Nat.lt_of_lt_of_eq hdepth hlimit.symm

/-- A class with a shape comes onto the path. -/
theorem enter (h : Searching r types target [current] seen g)
    (hshaped : r.isShaped current = true) (hentered : (g.enter current).1 = .entered) :
    (g.enter current).2.path = current :: g.path ∧
      Searching r types target [] seen (g.enter current).2 := by
  have hcounted : g.iterations + 1 ≤ ((target :: seen).filter r.isShaped).length := by
    have := h.counted
    rwa [List.filter_cons_of_pos hshaped] at this
  have hcount : g.count.iterations ≤ g.iterations + 1 := Nat.min_le_left _ _
  have hpath := Guard.path_of_entered hentered
  refine ⟨hpath, h.maxDepth, h.maxIterations, h.met_nodup, ?_, ?_, ?_, ?_, ?_⟩
  · rw [hpath]
    exact h.open_nodup
  · rw [hpath]
    exact h.open_met
  · rw [hpath]
    exact List.forall_mem_cons.mpr ⟨hshaped, h.path_shaped⟩
  · rw [hpath]
    exact h.left
  · exact Nat.le_trans hcount hcounted

/-- Everything that the class mentions has been met, so it can be left. -/
theorem leave {path : List ClassId} (h : Searching r types target [] seen g)
    (hpath : g.path = current :: path) (hmet : ∀ d, r.Leads types current d → d ∈ seen) :
    Searching r types target [] seen g.leave := by
  have hleave : g.leave.path = path := by
    unfold Guard.leave
    rw [hpath]
    rfl
  have hopen := h.open_nodup
  rw [hpath] at hopen
  refine ⟨h.maxDepth, h.maxIterations, h.met_nodup, ?_, ?_, ?_, ?_, h.counted⟩
  · rw [hleave]
    exact (List.nodup_cons.mp hopen).2
  · intro c hc
    rw [hleave] at hc
    refine h.open_met c ?_
    rw [hpath]
    exact List.mem_cons_of_mem current hc
  · intro c hc
    rw [hleave] at hc
    refine h.path_shaped c ?_
    rw [hpath]
    exact List.mem_cons_of_mem current hc
  -- the class that is left has been searched to the end, the others had been before
  · intro c hc hnot d hd
    rw [hleave] at hnot
    by_cases hcurrent : c = current
    · exact hmet d (hcurrent ▸ hd)
    · refine h.left c hc ?_ d hd
      rw [hpath]
      intro hmem
      rcases List.mem_cons.mp hmem with heq | hmem
      · exact hcurrent heq
      · exact hnot hmem

end Searching

/-! ## The search -/

/-- The search has come back to where it was, and has met at least what it had. -/
structure Returned (r : Registry) (types : Interner) (target : ClassId) (seen : List ClassId)
    (g : Guard ClassId) (seen' : List ClassId) (g' : Guard ClassId) : Prop where
  searching : Searching r types target [] seen' g'
  path_eq : g'.path = g.path
  subset : seen ⊆ seen'

theorem Returned.refl (h : Searching r types target [] seen g) :
    Returned r types target seen g seen g where
  searching := h
  path_eq := rfl
  subset _ hc := hc

theorem Returned.trans {seen'' : List ClassId} {g'' : Guard ClassId}
    (h : Returned r types target seen g seen' g')
    (h' : Returned r types target seen' g' seen'' g'') :
    Returned r types target seen g seen'' g'' where
  searching := h'.searching
  path_eq := h'.path_eq.trans h.path_eq
  subset _ hc := h'.subset (h.subset hc)

omit [Digest TypeData] in
theorem Outcome.of_true {x : ShapeSearch Bool} {found : Prop}
    {post : List ClassId → Guard ClassId → Prop}
    (hrun : (x.run seen).run g = ((true, seen'), g')) (h : found) :
    Outcome x seen g found post := by
  unfold Outcome
  rw [hrun]
  exact h

omit [Digest TypeData] in
theorem Outcome.of_false {x : ShapeSearch Bool} {found : Prop}
    {post : List ClassId → Guard ClassId → Prop}
    (hrun : (x.run seen).run g = ((false, seen'), g')) (h : post seen' g') :
    Outcome x seen g found post := by
  unfold Outcome
  rw [hrun]
  exact h

/-- Looking into one class, if the search of a class does what it should. -/
theorem outcome_lookInto
    (ih : ∀ {current seen g}, Searching r types target [current] seen g →
      g.path.length + fuel = Limits.shapes + 1 →
      Outcome (r.shapeReaches types target fuel current) seen g
        (r.FewShapes → TransGen (r.Leads types) current target) (Returned r types target seen g))
    (h : Searching r types target [] seen g) (hfuel : g.path.length + fuel = Limits.shapes + 1)
    (c : ClassId) :
    Outcome (r.lookInto types target fuel c) seen g
      (r.FewShapes → ReflTransGen (r.Leads types) c target)
      fun seen' g' => Returned r types target seen g seen' g' ∧ c ∈ seen' := by
  by_cases htarget : c = target
  · exact .of_true ((lookInto_run c).trans (if_pos htarget)) fun _ => htarget ▸ .refl
  by_cases hseen : c ∈ seen
  · refine .of_false ?_ ⟨.refl h, hseen⟩
    rw [lookInto_run, if_neg htarget, if_pos hseen]
  have hsearch := ih (h.meet htarget hseen) hfuel
  unfold Outcome at hsearch ⊢
  rw [lookInto_run, if_neg htarget, if_neg hseen]
  split
  · rename_i hfound
    rw [if_pos hfound] at hsearch
    exact fun hfew => (hsearch hfew).to_reflTransGen
  · rename_i hfound
    rw [if_neg hfound] at hsearch
    exact ⟨⟨hsearch.searching, hsearch.path_eq, fun d hd =>
      hsearch.subset (List.mem_cons_of_mem c hd)⟩, hsearch.subset List.mem_cons_self⟩

omit [Digest TypeData] in
/-- A search of several classes ends with the first that succeeds. -/
theorem anyM_cons_run {p : ClassId → ShapeSearch Bool} {cs : List ClassId} {b : Bool}
    (hrun : ((p c).run seen).run g = ((b, seen'), g')) :
    (((c :: cs).anyM p).run seen).run g =
      if b = true then ((true, seen'), g') else ((cs.anyM p).run seen').run g' := by
  rw [List.anyM, StateT.run_bind, StateT.run_bind]
  show StateT.run (StateT.run _ (((p c).run seen).run g).1.2) (((p c).run seen).run g).2 = _
  rw [hrun]
  cases b <;> rfl

/-- Looking into several classes in turn. -/
theorem outcome_anyM
    (hlook : ∀ {seen g} c, Searching r types target [] seen g →
      g.path.length + fuel = Limits.shapes + 1 →
      Outcome (r.lookInto types target fuel c) seen g
        (r.FewShapes → ReflTransGen (r.Leads types) c target)
        fun seen' g' => Returned r types target seen g seen' g' ∧ c ∈ seen')
    (cs : List ClassId) (h : Searching r types target [] seen g)
    (hfuel : g.path.length + fuel = Limits.shapes + 1) :
    Outcome (cs.anyM (r.lookInto types target fuel)) seen g
      (r.FewShapes → ∃ c ∈ cs, ReflTransGen (r.Leads types) c target)
      fun seen' g' => Returned r types target seen g seen' g' ∧ ∀ c ∈ cs, c ∈ seen' := by
  induction cs generalizing seen g with
  | nil => exact .of_false rfl ⟨.refl h, fun c hc => absurd hc List.not_mem_nil⟩
  | cons c cs ih =>
    have hfirst := hlook c h hfuel
    unfold Outcome at hfirst
    -- what the first search finds decides whether the others are made
    rcases hrun : ((r.lookInto types target fuel c).run seen).run g with ⟨⟨b, seen₁⟩, g₁⟩
    rw [hrun] at hfirst
    have hcons : (((c :: cs).anyM (r.lookInto types target fuel)).run seen).run g = _ :=
      anyM_cons_run hrun
    cases b with
    | true =>
      exact .of_true (hcons.trans (if_pos rfl)) fun hfew => ⟨c, List.mem_cons_self, hfirst hfew⟩
    | false =>
      obtain ⟨hreturned, hc⟩ : Returned r types target seen g seen₁ g₁ ∧ c ∈ seen₁ := hfirst
      have hfuel₁ : g₁.path.length + fuel = Limits.shapes + 1 := by rwa [hreturned.path_eq]
      -- it found nothing, so the rest decides
      have hrest := ih hreturned.searching hfuel₁
      unfold Outcome at hrest ⊢
      rw [hcons, if_neg Bool.false_ne_true]
      split
      · rename_i hfound
        rw [if_pos hfound] at hrest
        intro hfew
        obtain ⟨d, hd, hpath⟩ := hrest hfew
        exact ⟨d, List.mem_cons_of_mem c hd, hpath⟩
      · rename_i hfound
        rw [if_neg hfound] at hrest
        obtain ⟨hreturned', hcs⟩ := hrest
        refine ⟨hreturned.trans hreturned', fun d hd => ?_⟩
        rcases List.mem_cons.mp hd with rfl | hd
        · exact hreturned'.subset hc
        · exact hcs d hd

/-- Searching a class, with fuel enough for the longest path that the guard permits. A search
that is cut off succeeds, which does not happen with few shapes. -/
theorem outcome_shapeReaches (fuel : Nat) (h : Searching r types target [current] seen g)
    (hfuel : g.path.length + fuel = Limits.shapes + 1) :
    Outcome (r.shapeReaches types target fuel current) seen g
      (r.FewShapes → TransGen (r.Leads types) current target) (Returned r types target seen g) := by
  induction fuel generalizing current seen g with
  | zero =>
    refine .of_true rfl fun hfew => ?_
    -- the path would be longer than there are shapes
    have hlength := hfew g.path (List.nodup_cons.mp h.open_nodup).2 h.path_shaped
    omega
  | succ fuel ih =>
    cases hshape : r.shape? current with
    | none =>
      refine .of_false ?_ (.refl (h.skip hshape))
      rw [shapeReaches, hshape]
      rfl
    | some shape =>
      have hshaped : r.isShaped current = true := by rw [isShaped, hshape]; rfl
      by_cases hentered : (g.enter current).1 = .entered
      · obtain ⟨hpath, hsearching⟩ := h.enter hshaped hentered
        have hlook := outcome_anyM (fun c h hfuel => outcome_lookInto ih h hfuel c)
          (mentioned types shape) hsearching (by rw [hpath, List.length_cons]; omega)
        unfold Outcome at hlook ⊢
        rw [shapeReaches_run hshape hentered]
        dsimp only
        split
        · rename_i hfound
          rw [if_pos hfound] at hlook
          intro hfew
          obtain ⟨c, hc, hreaches⟩ := hlook hfew
          exact TransGen.head' ⟨shape, hshape, hc⟩ hreaches
        · rename_i hfound
          rw [if_neg hfound] at hlook
          obtain ⟨hreturned, hmet⟩ := hlook
          have hpath' := hreturned.path_eq.trans hpath
          refine ⟨hreturned.searching.leave hpath' ?_, ?_, hreturned.subset⟩
          · rintro d ⟨shape', hshape', hd⟩
            rw [hshape] at hshape'
            exact hmet d (Option.some.inj hshape' ▸ hd)
          · unfold Guard.leave
            dsimp only
            rw [hpath']
            rfl
      · have hrun : ((r.shapeReaches types target (fuel + 1) current).run seen).run g = _ :=
          shapeReaches_run_of_refused hshape hentered
        rw [Guard.isExceeded_of_refused (List.nodup_cons.mp h.open_nodup).1 hentered] at hrun
        exact .of_true hrun fun hfew => absurd (h.admitted hfew hshaped) hentered

/-- The search for a way back to the class of a shape. -/
theorem outcome_isRecursiveShape (r : Registry) (types : Interner) (c : ClassId) :
    if r.isRecursiveShape types c then r.FewShapes → TransGen (r.Leads types) c c
    else ∃ seen g, Returned r types c [] (.ofProfile .tupleShapes) seen g := by
  have hsearch := outcome_shapeReaches (Limits.shapes + 1) (.start r types c) (Nat.zero_add _)
  unfold Outcome at hsearch
  unfold isRecursiveShape
  split at hsearch
  · rw [if_pos (by assumption)]
    exact hsearch
  · rw [if_neg (by assumption)]
    exact ⟨_, _, hsearch⟩

/-- A shape that leads back to its class is found to be recursive. -/
theorem isRecursiveShape_of_leads_back (hcycle : TransGen (r.Leads types) c c) :
    r.isRecursiveShape types c = true := by
  rw [← Bool.not_eq_false]
  intro hnot
  have hsearch := outcome_isRecursiveShape r types c
  rw [hnot, if_neg Bool.false_ne_true] at hsearch
  obtain ⟨seen, g, hsearching, hpath, -⟩ := hsearch
  have hleft : ∀ d ∈ c :: seen, ∀ e, r.Leads types d e → e ∈ seen := by
    intro d hd
    refine hsearching.left d hd ?_
    rw [hpath]
    exact List.not_mem_nil
  -- what can be reached has been met, but the class itself is not met again
  have hmet : ∀ d, TransGen (r.Leads types) c d → d ∈ seen := by
    intro d hd
    induction hd with
    | single hlead => exact hleft c List.mem_cons_self _ hlead
    | tail _ hlead ih => exact hleft _ (List.mem_cons_of_mem c ih) _ hlead
  exact (List.nodup_cons.mp hsearching.met_nodup).1 (hmet c hcycle)

/-- With few shapes, a shape is recursive just if it leads back to its class. -/
theorem isRecursiveShape_iff (hfew : r.FewShapes) (types : Interner) (c : ClassId) :
    r.isRecursiveShape types c = true ↔ TransGen (r.Leads types) c c := by
  refine ⟨fun hrecursive => ?_, isRecursiveShape_of_leads_back⟩
  have hsearch := outcome_isRecursiveShape r types c
  rw [if_pos hrecursive] at hsearch
  exact hsearch hfew

end Supertypes.Registry
