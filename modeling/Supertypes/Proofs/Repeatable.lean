import Mathlib.Data.List.Forall2
import Supertypes.Proofs.Handles

/-!
# Interning can be repeated

Actions that intern types do so once and for all: run again at any later time they give the same
answer and add nothing.

- `Interner.Settled t x a`: from `t` on, the action `x` answers `a` and adds nothing.
  `Interner.Fixed t x a`: the same whatever has been added, be it well formed or not.
- `Interner.Repeatable t x post`: run from `t`, the action only adds to the tables, keeps them
  well formed, and its answer is settled afterwards and satisfies `post`.
- `Repeatable.of_run` is what is known after a run.
- `Repeatable.bind`, `Repeatable.read`, `Repeatable.mapM` and `Repeatable.mapM_run` put such
  actions together.
-/

namespace Supertypes

variable {α β σ : Type}

/-! ## Lists in step -/

theorem exists_of_mem_right {R : α → β → Prop} {xs : List α} {ys : List β}
    (h : List.Forall₂ R xs ys) {y : β} (hy : y ∈ ys) : ∃ x ∈ xs, R x y := by
  induction h with
  | nil => exact absurd hy List.not_mem_nil
  | cons hxy _ ih =>
    rcases List.mem_cons.mp hy with rfl | hy
    · exact ⟨_, List.mem_cons_self, hxy⟩
    · obtain ⟨x, hx, hxy⟩ := ih hy
      exact ⟨x, List.mem_cons_of_mem _ hx, hxy⟩

theorem exists_of_mem_left {R : α → β → Prop} {xs : List α} {ys : List β}
    (h : List.Forall₂ R xs ys) {x : α} (hx : x ∈ xs) : ∃ y ∈ ys, R x y :=
  exists_of_mem_right h.flip hx

variable [Digest TypeData]

namespace Interner

/-! ## Settled answers -/

/-- From `t` on, the action answers `a` and adds nothing. -/
def Settled (t : Interner) (x : Interning α) (a : α) : Prop :=
  ∀ t', t ≤ t' → t'.WellFormed → x.run t' = (a, t')

namespace Settled

variable {t t' : Interner} {x : Interning α} {a b : α}

theorem of_le (hx : Settled t x a) (h : t ≤ t') : Settled t' x a :=
  fun t'' hle => hx t'' (Interner.le_trans h hle)

/-- What is settled is what the action answers, and it adds nothing. -/
theorem run_iff (hwf : t.WellFormed) (ha : Settled t x a) : x.run t = (b, t) ↔ a = b := by
  rw [ha t t.le_refl hwf]
  constructor
  · exact fun h => congrArg Prod.fst h
  · rintro rfl
    rfl

theorem pure (t : Interner) (a : α) : Settled t (pure a : Interning α) a :=
  fun _ _ _ => rfl

theorem bind {f : α → Interning β} {c : β} (hx : Settled t x a) (hf : Settled t (f a) c) :
    Settled t (x >>= f) c := by
  intro t' hle hwf
  rw [StateT.run_bind, hx t' hle hwf]
  exact hf t' hle hwf

/-- Reading the tables changes nothing, if what is done next does not depend on later
additions. -/
theorem read {k : Interner → Interning α} (hk : ∀ t', t ≤ t' → t'.WellFormed → k t' = x)
    (hx : Settled t x a) : Settled t (get >>= k) a := by
  intro t' hle hwf
  show (k t').run t' = (a, t')
  rw [hk t' hle hwf]
  exact hx t' hle hwf

end Settled

/-- From `t` on, the action answers `a` and adds nothing, even in tables that do not hold
together. -/
def Fixed (t : Interner) (x : Interning α) (a : α) : Prop :=
  ∀ t', t ≤ t' → x.run t' = (a, t')

namespace Fixed

variable {t : Interner} {x : Interning α} {a : α}

theorem settled (hx : Fixed t x a) : Settled t x a :=
  fun t' hle _ => hx t' hle

omit [Digest TypeData] in
theorem pure (t : Interner) (a : α) : Fixed t (pure a : Interning α) a :=
  fun _ _ => rfl

omit [Digest TypeData] in
theorem bind {f : α → Interning β} {c : β} (hx : Fixed t x a) (hf : Fixed t (f a) c) :
    Fixed t (x >>= f) c := by
  intro t' hle
  rw [StateT.run_bind, hx t' hle]
  exact hf t' hle

omit [Digest TypeData] in
theorem read {k : Interner → Interning α} (hk : ∀ t', t ≤ t' → k t' = x) (hx : Fixed t x a) :
    Fixed t (get >>= k) a := by
  intro t' hle
  show (k t').run t' = (a, t')
  rw [hk t' hle]
  exact hx t' hle

end Fixed

/-! ## Repeatable actions -/

/-- Run from `t`, the action only adds to the tables and keeps them well formed, and its answer
is settled afterwards and satisfies `post`. -/
structure Repeatable (t : Interner) (x : Interning α) (post : α → Interner → Prop) : Prop where
  le : t ≤ (x.run t).2
  wellFormed : (x.run t).2.WellFormed
  settled : Settled (x.run t).2 x (x.run t).1
  post : post (x.run t).1 (x.run t).2

namespace Repeatable

variable {t : Interner} {x : Interning α} {P Q : α → Interner → Prop}

theorem pure (hwf : t.WellFormed) {a : α} (h : P a t) : Repeatable t (pure a) P where
  le := t.le_refl
  wellFormed := hwf
  settled := .pure t a
  post := h

/-- The postcondition may be weakened, and may use that the answer is settled. -/
theorem mono (hx : Repeatable t x P)
    (h : ∀ a t', t ≤ t' → t'.WellFormed → Settled t' x a → P a t' → Q a t') :
    Repeatable t x Q where
  le := hx.le
  wellFormed := hx.wellFormed
  settled := hx.settled
  post := h _ _ hx.le hx.wellFormed hx.settled hx.post

/-- What is known of an answer and of the tables after it. -/
theorem of_run (hx : Repeatable t x P) {a : α} {t' : Interner} (hrun : x.run t = (a, t')) :
    t ≤ t' ∧ t'.WellFormed ∧ Settled t' x a ∧ P a t' := by
  obtain ⟨hle, hwf, hsettled, hpost⟩ := hx
  rw [hrun] at hle hwf hsettled hpost
  exact ⟨hle, hwf, hsettled, hpost⟩

/-- What is known of the answer includes where it comes from. -/
theorem run_eq (hx : Repeatable t x P) :
    Repeatable t x fun a t' => P a t' ∧ (a, t') = x.run t where
  le := hx.le
  wellFormed := hx.wellFormed
  settled := hx.settled
  post := ⟨hx.post, rfl⟩

theorem bind {f : α → Interning β} {R : β → Interner → Prop} (hx : Repeatable t x P)
    (hf : ∀ a t', t ≤ t' → t'.WellFormed → Settled t' x a → P a t' → Repeatable t' (f a) R) :
    Repeatable t (x >>= f) R := by
  -- the second action runs in the tables that the first leaves
  have hnext := hf _ _ hx.le hx.wellFormed hx.settled hx.post
  have hrun : (x >>= f).run t = (f (x.run t).1).run (x.run t).2 := rfl
  refine ⟨?_, ?_, ?_, ?_⟩
  · rw [hrun]
    exact Interner.le_trans hx.le hnext.le
  · rw [hrun]
    exact hnext.wellFormed
  · rw [hrun]
    exact (hx.settled.of_le hnext.le).bind hnext.settled
  · rw [hrun]
    exact hnext.post

/-- Reading the tables changes nothing, if what is done next does not depend on later
additions. -/
theorem read {k : Interner → Interning α}
    (hk : ∀ t', t ≤ t' → t'.WellFormed → k t' = k t) (hx : Repeatable t (k t) P) :
    Repeatable t (get >>= k) P where
  le := hx.le
  wellFormed := hx.wellFormed
  settled := .read (fun t' hle hwf => hk t' (Interner.le_trans hx.le hle) hwf) hx.settled
  post := hx.post

/-- An action may carry a state of its own along. -/
theorem lift (hx : Repeatable t x P) (s : σ) :
    Repeatable t ((monadLift x : StateT σ Interning α).run s) fun r => P r.1 := by
  rw [StateT.run_monadLift]
  exact hx.bind fun _ _ _ hwf _ ha => .pure hwf ha

/-- Reading the tables beside a state of its own. -/
theorem readThe {k : Interner → StateT σ Interning α} {s : σ} {P : α × σ → Interner → Prop}
    (hk : ∀ t', t ≤ t' → t'.WellFormed → k t' = k t) (hx : Repeatable t ((k t).run s) P) :
    Repeatable t ((getThe Interner >>= k).run s) P := by
  refine read (k := fun t' => (k t').run s) ?_ hx
  intro t' hle hwf
  rw [hk t' hle hwf]

/-- The state of its own may be dropped at the end. -/
theorem drop {x : StateT σ Interning α} {s : σ} {P : α → Interner → Prop}
    (hx : Repeatable t (x.run s) fun r => P r.1) : Repeatable t (Prod.fst <$> x.run s) P := by
  rw [map_eq_pure_bind]
  exact hx.bind fun _ _ _ hwf _ ha => .pure hwf ha

/-- A postcondition that later additions keep. -/
def Lasting (post : α → Interner → Prop) : Prop :=
  ∀ a t t', t.WellFormed → t ≤ t' → post a t → post a t'

/-- Running a repeatable action for each entry of a list. -/
theorem mapM {f : α → Interning β} {P : α → β → Interner → Prop} (hP : ∀ a, Lasting (P a))
    (hwf : t.WellFormed) {xs : List α}
    (hf : ∀ a ∈ xs, ∀ t', t ≤ t' → t'.WellFormed → Repeatable t' (f a) (P a)) :
    Repeatable t (xs.mapM f) fun ys t' => List.Forall₂ (fun a b => P a b t') xs ys := by
  induction xs generalizing t with
  | nil => exact .pure hwf .nil
  | cons a xs ih =>
    rw [List.mapM_cons]
    -- the first entry, then the others from the tables that it leaves
    refine (hf a List.mem_cons_self t t.le_refl hwf).bind ?_
    intro b t₁ hle₁ hwf₁ _ hb
    refine (ih hwf₁ fun c hc t' hle => hf c (List.mem_cons_of_mem _ hc) t'
      (Interner.le_trans hle₁ hle)).bind ?_
    intro ys t₂ hle₂ hwf₂ _ hys
    exact .pure hwf₂ (.cons (hP a b t₁ t₂ hwf₁ hle₂ hb) hys)

/-- Running an action with a state of its own for each entry of a list. -/
theorem mapM_run {f : α → StateT σ Interning β} {P : α → β → Interner → Prop}
    (hP : ∀ a, Lasting (P a)) (hwf : t.WellFormed) {xs : List α}
    (hf : ∀ a ∈ xs, ∀ s t', t ≤ t' → t'.WellFormed →
      Repeatable t' ((f a).run s) fun r => P a r.1) (s : σ) :
    Repeatable t ((xs.mapM f).run s) fun r t' => List.Forall₂ (fun a b => P a b t') xs r.1 := by
  induction xs generalizing t s with
  | nil => exact .pure hwf .nil
  | cons a xs ih =>
    rw [List.mapM_cons, StateT.run_bind]
    refine (hf a List.mem_cons_self s t t.le_refl hwf).bind ?_
    intro b t₁ hle₁ hwf₁ _ hb
    rw [StateT.run_bind]
    refine (ih hwf₁ (fun c hc s' t' hle => hf c (List.mem_cons_of_mem _ hc) s' t'
      (Interner.le_trans hle₁ hle)) b.2).bind ?_
    intro ys t₂ hle₂ hwf₂ _ hys
    exact .pure hwf₂ (.cons (hP a b.1 t₁ t₂ hwf₁ hle₂ hb) hys)

end Repeatable

end Interner

end Supertypes
