/-!
# Depth-first search

Searching a graph whose nodes and successors are given by a function, from a stack of roots.

- `Search.explore next fuel stack seen` lists the nodes met, in the order in which they are met.
  A node's successors are pushed in order, so the last of them is visited first.
- `Search.reachable next bound roots` is the search from the start. It is complete when `bound`
  is at least the number of nodes that can be reached, since every unit of fuel meets a new node.
- `Search.firstSeen` keeps the first of equal entries.
-/

namespace Supertypes.Search

variable {α : Type} [DecidableEq α]

/-- Continue a search: `stack` holds the nodes to visit, the next one first, and `seen` the nodes
met so far in order. -/
def explore (next : α → List α) : Nat → List α → List α → List α
  | 0, _, seen => seen
  | fuel + 1, stack, seen =>
    match stack.dropWhile (· ∈ seen) with
    | [] => seen
    | node :: rest => explore next fuel ((next node).reverse ++ rest) (seen ++ [node])

/-- The nodes that can be reached from `roots`, of which there are at most `bound`. -/
def reachable (next : α → List α) (bound : Nat) (roots : List α) : List α :=
  explore next bound roots.reverse []

/-- The entries of a list in order, each at its first place only. -/
def firstSeen (xs : List α) : List α :=
  xs.foldl (fun seen x => if x ∈ seen then seen else seen ++ [x]) []

end Supertypes.Search
