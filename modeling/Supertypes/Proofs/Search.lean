import Mathlib.Data.List.Nodup
import Mathlib.Data.List.Perm.Subperm
import Mathlib.Data.List.TakeWhile
import Mathlib.Logic.Relation
import Supertypes.Search

/-!
# Depth-first search finds what can be reached

- `Frontier`: what a search in progress knows. Everything met or waiting can be reached, and
  every successor of a node met has been met or waits.
- `explore_sound` and `explore_complete`: a search from such a state lists nodes that can be
  reached, and all of them when the fuel covers the nodes that are left.
- `mem_reachable_iff`: the search from the start lists exactly the nodes that can be reached.
-/

namespace Supertypes.Search

open Relation

variable {α : Type}

/-- `b` is a successor of `a`. -/
def Step (next : α → List α) (a b : α) : Prop :=
  b ∈ next a

/-- `x` can be reached from one of `roots`. -/
def Reached (next : α → List α) (roots : List α) (x : α) : Prop :=
  ∃ r ∈ roots, ReflTransGen (Step next) r x

theorem Reached.root {next : α → List α} {roots : List α} {r : α} (h : r ∈ roots) :
    Reached next roots r :=
  ⟨r, h, .refl⟩

theorem Reached.step {next : α → List α} {roots : List α} {a b : α} (h : Reached next roots a)
    (hb : b ∈ next a) : Reached next roots b := by
  obtain ⟨r, hr, path⟩ := h
  exact ⟨r, hr, path.tail hb⟩

/-- A set that holds the roots and all successors of its members holds all that can be
reached. -/
theorem Reached.mem_of_closed {next : α → List α} {roots seen : List α}
    (hroots : ∀ r ∈ roots, r ∈ seen) (hclosed : ∀ a ∈ seen, ∀ b ∈ next a, b ∈ seen) {x : α}
    (h : Reached next roots x) : x ∈ seen := by
  obtain ⟨r, hr, path⟩ := h
  -- along the path every node is a member
  induction path with
  | refl => exact hroots r hr
  | tail _ hstep ih => exact hclosed _ ih _ hstep

/-- What a search from `roots` knows when `stack` waits and `seen` has been met. -/
structure Frontier (next : α → List α) (roots stack seen : List α) : Prop where
  /-- No node is met twice. -/
  nodup : seen.Nodup
  seen_reached : ∀ x ∈ seen, Reached next roots x
  stack_reached : ∀ x ∈ stack, Reached next roots x
  /-- No root is lost. -/
  roots_kept : ∀ r ∈ roots, r ∈ seen ∨ r ∈ stack
  /-- No successor is lost. -/
  next_kept : ∀ a ∈ seen, ∀ b ∈ next a, b ∈ seen ∨ b ∈ stack

namespace Frontier

variable {next : α → List α} {roots stack seen : List α}

theorem start (next : α → List α) (roots : List α) : Frontier next roots roots.reverse [] where
  nodup := List.nodup_nil
  seen_reached _ hx := absurd hx List.not_mem_nil
  stack_reached _ hx := .root (List.mem_reverse.mp hx)
  roots_kept _ hr := .inr (List.mem_reverse.mpr hr)
  next_kept _ ha := absurd ha List.not_mem_nil

/-- With nothing left to wait for, all that can be reached has been met. -/
theorem complete (h : Frontier next roots stack seen) (hstack : ∀ x ∈ stack, x ∈ seen) {x : α}
    (hx : Reached next roots x) : x ∈ seen := by
  refine hx.mem_of_closed ?_ ?_
  · intro r hr
    exact (h.roots_kept r hr).elim id (hstack r)
  · intro a ha b hb
    exact (h.next_kept a ha b hb).elim id (hstack b)

/-- Nodes on top of the stack that have been met are dropped. -/
theorem skip [DecidableEq α] (h : Frontier next roots stack seen) :
    Frontier next roots (stack.dropWhile (· ∈ seen)) seen := by
  -- a node of the stack is dropped only if it has been met
  have keep : ∀ x, x ∈ seen ∨ x ∈ stack → x ∈ seen ∨ x ∈ stack.dropWhile (· ∈ seen) := by
    rintro x (hx | hx)
    · exact .inl hx
    · rw [← List.takeWhile_append_dropWhile (p := (· ∈ seen)) (l := stack)] at hx
      rcases List.mem_append.mp hx with hx | hx
      · exact .inl (by simpa using List.mem_takeWhile_imp hx)
      · exact .inr hx
  exact {
    nodup := h.nodup
    seen_reached := h.seen_reached
    stack_reached := fun x hx => h.stack_reached x ((List.dropWhile_sublist _).subset hx)
    roots_kept := fun r hr => keep r (h.roots_kept r hr)
    next_kept := fun a ha b hb => keep b (h.next_kept a ha b hb) }

/-- The node on top of the stack is met, and its successors wait. -/
theorem visit {node : α} (h : Frontier next roots (node :: stack) seen) (hnode : node ∉ seen) :
    Frontier next roots ((next node).reverse ++ stack) (seen ++ [node]) := by
  have hreach : Reached next roots node := h.stack_reached node List.mem_cons_self
  -- nothing is lost: what was met or waited is met or waits still
  have keep : ∀ x, x ∈ seen ∨ x ∈ node :: stack →
      x ∈ seen ++ [node] ∨ x ∈ (next node).reverse ++ stack := by
    simp only [List.mem_cons, List.mem_append]
    tauto
  refine {
    nodup := ?_
    seen_reached := ?_
    stack_reached := ?_
    roots_kept := fun r hr => keep r (h.roots_kept r hr)
    next_kept := ?_ }
  · rw [List.nodup_append]
    refine ⟨h.nodup, List.nodup_singleton node, ?_⟩
    rintro a ha b hb rfl
    exact hnode (List.mem_singleton.mp hb ▸ ha)
  · intro x hx
    rcases List.mem_append.mp hx with hx | hx
    · exact h.seen_reached x hx
    · exact List.mem_singleton.mp hx ▸ hreach
  · intro x hx
    rcases List.mem_append.mp hx with hx | hx
    · exact hreach.step (List.mem_reverse.mp hx)
    · exact h.stack_reached x (List.mem_cons_of_mem _ hx)
  · intro a ha b hb
    rcases List.mem_append.mp ha with ha | ha
    · exact keep b (h.next_kept a ha b hb)
    · rw [List.mem_singleton.mp ha] at hb
      exact .inr (List.mem_append_left _ (List.mem_reverse.mpr hb))

end Frontier

variable [DecidableEq α] {next : α → List α} {roots : List α}

/-- A node on top of the stack after `dropWhile` is new. -/
theorem not_mem_of_dropWhile_eq_cons {stack seen rest : List α} {node : α}
    (h : stack.dropWhile (· ∈ seen) = node :: rest) : node ∉ seen := by
  have hhead := List.head?_dropWhile_not (· ∈ seen) stack
  rw [h] at hhead
  simpa using hhead

theorem explore_sound {fuel : Nat} {stack seen : List α} (h : Frontier next roots stack seen)
    {x : α} (hx : x ∈ explore next fuel stack seen) : Reached next roots x := by
  induction fuel generalizing stack seen with
  | zero => exact h.seen_reached x hx
  | succ fuel ih =>
    rw [explore] at hx
    split at hx
    · exact h.seen_reached x hx
    · rename_i node rest hdrop
      have hskip := h.skip
      rw [hdrop] at hskip
      exact ih (hskip.visit (not_mem_of_dropWhile_eq_cons hdrop)) hx

/-- A search with enough fuel for the nodes not met yet finds all that can be reached. -/
theorem explore_complete {nodes : List α} (hnodes : ∀ x, Reached next roots x → x ∈ nodes)
    {fuel : Nat} {stack seen : List α} (h : Frontier next roots stack seen)
    (hfuel : nodes.length ≤ seen.length + fuel) {x : α} (hx : Reached next roots x) :
    x ∈ explore next fuel stack seen := by
  induction fuel generalizing stack seen with
  | zero =>
    -- as many nodes have been met as there are, so none is left to wait
    have hsub : seen ⊆ nodes := fun y hy => hnodes y (h.seen_reached y hy)
    have hperm : seen.Perm nodes := (h.nodup.subperm hsub).perm_of_length_le hfuel
    exact h.complete (fun y hy => hperm.mem_iff.mpr (hnodes y (h.stack_reached y hy))) hx
  | succ fuel ih =>
    rw [explore]
    have hskip := h.skip
    split
    · rename_i hdrop
      rw [hdrop] at hskip
      exact hskip.complete (fun y hy => absurd hy List.not_mem_nil) hx
    · rename_i node rest hdrop
      rw [hdrop] at hskip
      refine ih (hskip.visit (not_mem_of_dropWhile_eq_cons hdrop)) ?_
      simp only [List.length_append, List.length_singleton]
      omega

/-- The search lists exactly what can be reached, if `bound` is at least the number of nodes. -/
theorem mem_reachable_iff {nodes : List α} {bound : Nat}
    (hnodes : ∀ x, Reached next roots x → x ∈ nodes) (hbound : nodes.length ≤ bound) {x : α} :
    x ∈ reachable next bound roots ↔ Reached next roots x :=
  ⟨explore_sound (.start next roots),
    explore_complete hnodes (.start next roots) (by simpa using hbound)⟩

@[simp] theorem mem_firstSeen {xs : List α} {x : α} : x ∈ firstSeen xs ↔ x ∈ xs := by
  suffices general : ∀ seen : List α,
      x ∈ xs.foldl (fun seen x => if x ∈ seen then seen else seen ++ [x]) seen ↔
        x ∈ seen ∨ x ∈ xs by
    simpa [firstSeen] using general []
  induction xs with
  | nil => simp
  | cons y ys ih =>
    intro seen
    rw [List.foldl_cons, ih]
    by_cases hy : y ∈ seen
    · rw [if_pos hy, List.mem_cons]
      constructor
      · tauto
      · rintro (h | rfl | h)
        · exact .inl h
        · exact .inl hy
        · exact .inr h
    · rw [if_neg hy, List.mem_append, List.mem_singleton, List.mem_cons, or_assoc]

end Supertypes.Search
