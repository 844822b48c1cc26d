import Supertypes.Proofs.Grammar
import Supertypes.Types.Text

/-!
# Spelling type expressions

- `TypeExpr.Spelled`: an expression that some text spells. Its names are words, and its unions
  have two or more members, of which none is a union. `TypeExpr.spelled_of_parse` says that
  nothing else is ever read.
- `TypeExpr.text` writes an expression, and `TypeExpr.parse_text` says that a spelled expression
  is read back from its text. In between stand its tokens: `TypeExpr.Spelled.spells` takes the
  text apart, `TypeExpr.Spelled.exists_tree` finds the tree that derives them.
-/

namespace Supertypes

/-! ## Spelled expressions -/

namespace TypeExpr

/-- The expression is a union. -/
def IsUnion : TypeExpr → Prop
  | .union _ => True
  | .name .. | .tuple _ => False

/-- Some text spells the expression. -/
inductive Spelled : TypeExpr → Prop
  | name {head : String} {args : List TypeExpr} (hhead : Token.IsWord head)
    (hargs : ∀ a ∈ args, Spelled a) : Spelled (.name head args)
  | tuple {elements : List (Element TypeExpr)} (hitems : ∀ e ∈ elements, Spelled e.item) :
    Spelled (.tuple elements)
  | union {members : List TypeExpr} (htwo : 2 ≤ members.length)
    (hflat : ∀ m ∈ members, ¬ m.IsUnion) (hmembers : ∀ m ∈ members, Spelled m) :
    Spelled (.union members)

/-- A single alternative of a union. -/
def Alternative (e : TypeExpr) : Prop :=
  e.Spelled ∧ ¬ e.IsUnion

theorem spelled_ofAlternatives {first : TypeExpr} {more : List TypeExpr}
    (h : ∀ e ∈ first :: more, e.Alternative) : (ofAlternatives first more).Spelled := by
  unfold ofAlternatives
  split
  · exact (h first List.mem_cons_self).1
  · rename_i hmore
    have hlength : 0 < more.length := by simpa [List.length_pos_iff] using hmore
    refine .union ?_ (fun e he => (h e he).2) fun e he => (h e he).1
    rw [List.length_cons]
    omega

end TypeExpr

/-- What an entry is spelled with is among what the list is spelled with. -/
theorem mem_flatMap_separated {α : Type} {f : α → List Token} {x : α} {xs : List α} {t : Token}
    (sep : Token) (hx : x ∈ xs) (ht : t ∈ f x) : t ∈ xs.flatMap fun y => sep :: f y :=
  List.mem_flatMap.mpr ⟨x, hx, List.mem_cons_of_mem sep ht⟩

mutual

theorem UnionTree.spelled : ∀ (u : UnionTree),
    (∀ s, .word s ∈ u.tokens → Token.IsWord s) → u.expr.Spelled
  | .alternatives first more, h => by
    rw [UnionTree.tokens] at h
    rw [UnionTree.expr]
    refine TypeExpr.spelled_ofAlternatives fun e he => ?_
    rcases List.mem_cons.mp he with rfl | he
    · exact first.alternative fun s hs => h s (List.mem_append_left _ hs)
    · obtain ⟨p, hp, rfl⟩ := List.mem_map.mp he
      refine p.alternative fun s hs => h s (List.mem_append_right _ ?_)
      exact mem_flatMap_separated .bar hp hs

theorem PrimaryTree.alternative : ∀ (p : PrimaryTree),
    (∀ s, .word s ∈ p.tokens → Token.IsWord s) → p.expr.Alternative
  | .name head, h => by
    rw [PrimaryTree.tokens] at h
    rw [PrimaryTree.expr]
    exact ⟨.name (h head List.mem_cons_self) (by simp), fun h => h⟩
  | .applied head first more, h => by
    rw [PrimaryTree.tokens] at h
    rw [PrimaryTree.expr]
    refine ⟨.name (h head List.mem_cons_self) fun e he => ?_, fun h => h⟩
    -- the words of an argument are among those of the whole
    rcases List.mem_cons.mp he with rfl | he
    · refine first.spelled fun s hs => h s ?_
      simp [hs]
    · obtain ⟨u, hu, rfl⟩ := List.mem_map.mp he
      refine u.spelled fun s hs => ?_
      have hargs := mem_flatMap_separated .comma hu hs
      exact h s (by simp [hargs])
  | .unit, _ => by
    rw [PrimaryTree.expr]
    exact ⟨.tuple (by simp), fun h => h⟩
  | .tuple comma first more, h => by
    rw [PrimaryTree.tokens] at h
    rw [PrimaryTree.expr]
    refine ⟨.tuple fun e he => ?_, fun h => h⟩
    rcases List.mem_cons.mp he with rfl | he
    · refine first.spelled fun s hs => h s ?_
      simp [hs]
    · obtain ⟨i, hi, rfl⟩ := List.mem_map.mp he
      refine i.spelled fun s hs => ?_
      have hitems := mem_flatMap_separated .comma hi hs
      exact h s (by simp [hitems])

theorem ItemTree.spelled : ∀ (i : ItemTree),
    (∀ s, .word s ∈ i.tokens → Token.IsWord s) → i.element.item.Spelled
  | .mk star u, h => by
    rw [ItemTree.tokens] at h
    rw [ItemTree.element]
    refine u.spelled fun s hs => h s ?_
    cases star with
    | true => exact List.mem_cons_of_mem _ hs
    | false => exact hs

end

/-- Only spelled expressions are read. -/
theorem TypeExpr.spelled_of_parse {source : String} {e : TypeExpr} (h : parse source = .ok e) :
    e.Spelled := by
  obtain ⟨d, rfl⟩ := exists_derivation_of_parse h
  exact d.tree.spelled fun s hs => d.splits.isWord hs

/-! ## Writing expressions -/

namespace TypeExpr

/-- The item of a tuple element is smaller than the tuple. -/
theorem sizeOf_item_lt {elements : List (Element TypeExpr)} {e : Element TypeExpr}
    (h : e ∈ elements) : sizeOf e.item < sizeOf (TypeExpr.tuple elements) := by
  have hlist := List.sizeOf_lt_of_mem h
  obtain ⟨item, isRest⟩ := e
  simp only [Element.mk.sizeOf_spec, tuple.sizeOf_spec] at hlist ⊢
  omega

/-- The expression as it is written. -/
def text : TypeExpr → String
  | .name head args =>
    if args.isEmpty then head else head ++ "[" ++ ", ".intercalate (args.map text) ++ "]"
  | .tuple elements => TypePrinter.tupleText (elements.map fun e => ⟨text e.item, e.isRest⟩)
  | .union members => " | ".intercalate (members.map text)
termination_by e => sizeOf e
decreasing_by
  · exact Nat.lt_of_lt_of_le (List.sizeOf_lt_of_mem ‹_›) (by simp)
  · exact sizeOf_item_lt ‹_›
  · exact Nat.lt_of_lt_of_le (List.sizeOf_lt_of_mem ‹_›) (by simp)

/-- The tokens of a tuple element. -/
def itemTokens (e : Element (List Token)) : List Token :=
  if e.isRest then .star :: e.item else e.item

/-- The tokens of a tuple. A comma follows the only element of a tuple. -/
def tupleTokens (elements : List (Element (List Token))) : List Token :=
  match elements.map itemTokens with
  | [single] => .openParen :: single ++ [.comma, .closeParen]
  | items => .openParen :: [Token.comma].intercalate items ++ [.closeParen]

/-- The tokens that the expression is written with. -/
def tokens : TypeExpr → List Token
  | .name head args =>
    if args.isEmpty then [.word head]
    else .word head :: .openBracket :: [Token.comma].intercalate (args.map tokens) ++
      [.closeBracket]
  | .tuple elements => tupleTokens (elements.map fun e => ⟨tokens e.item, e.isRest⟩)
  | .union members => [Token.bar].intercalate (members.map tokens)
termination_by e => sizeOf e
decreasing_by
  · exact Nat.lt_of_lt_of_le (List.sizeOf_lt_of_mem ‹_›) (by simp)
  · exact sizeOf_item_lt ‹_›
  · exact Nat.lt_of_lt_of_le (List.sizeOf_lt_of_mem ‹_›) (by simp)

end TypeExpr

namespace TypeExpr

theorem spells_item {e : Element String} {e' : Element (List Token)}
    (hitem : Token.Spells e.item e'.item) (hrest : e.isRest = e'.isRest) :
    Token.Spells (if e.isRest then "*" ++ e.item else e.item) (itemTokens e') := by
  unfold itemTokens
  rw [hrest]
  split
  · exact Token.separates_star.append hitem
  · exact hitem

theorem spells_tuple {es : List (Element String)} {es' : List (Element (List Token))}
    (h : List.Forall₂ (fun e e' => Token.Spells e.item e'.item ∧ e.isRest = e'.isRest) es es') :
    Token.Spells (TypePrinter.tupleText es) (tupleTokens es') := by
  have hitems : List.Forall₂ Token.Spells
      (es.map fun e => if e.isRest then "*" ++ e.item else e.item) (es'.map itemTokens) := by
    rw [List.forall₂_map_left_iff, List.forall₂_map_right_iff]
    exact h.imp fun e e' he => spells_item he.1 he.2
  unfold TypePrinter.tupleText tupleTokens
  generalize es.map (fun e => if e.isRest then "*" ++ e.item else e.item) = texts at hitems ⊢
  generalize es'.map itemTokens = tss at hitems ⊢
  -- no element, one, or more
  cases hitems with
  | nil =>
    exact (Token.separates_openParen.enclose Token.spells_empty Token.separates_closeParen).spells
  | cons hfirst hrest =>
    cases hrest with
    | nil =>
      exact (Token.separates_openParen.enclose hfirst Token.separates_lastComma).spells
    | cons hsecond hrest =>
      have hinner := Token.separates_comma.intercalate (.cons hfirst (.cons hsecond hrest))
      exact (Token.separates_openParen.enclose hinner Token.separates_closeParen).spells

/-- The text of a spelled expression is cut into its tokens. -/
theorem Spelled.spells {e : TypeExpr} (h : e.Spelled) : Token.Spells e.text e.tokens := by
  induction h with
  | @name head args hhead _ ih =>
    rw [text, tokens]
    split
    · exact Token.spells_word hhead
    · have hinner := Token.separates_comma.intercalate
        (List.forall₂_map_left_iff.mpr (List.forall₂_map_right_iff.mpr (List.forall₂_same.mpr ih)))
      have hargs := Token.separates_openBracket.enclose hinner Token.separates_closeBracket
      have hwhole := (Token.spells_word hhead).append hargs
      simpa only [String.append_assoc, List.cons_append, List.nil_append] using hwhole
  | tuple _ ih =>
    rw [text, tokens]
    refine spells_tuple ?_
    rw [List.forall₂_map_left_iff, List.forall₂_map_right_iff, List.forall₂_same]
    exact fun e he => ⟨ih e he, rfl⟩
  | union _ _ _ ih =>
    rw [text, tokens]
    exact Token.separates_bar.intercalate
      (List.forall₂_map_left_iff.mpr (List.forall₂_map_right_iff.mpr (List.forall₂_same.mpr ih)))

end TypeExpr

/-! ### The tree of a text -/

/-- Texts with a separator between them. -/
theorem intercalate_eq_flatMap {α : Type} (f : α → List Token) (sep : Token) (x : α)
    (xs : List α) :
    [sep].intercalate ((x :: xs).map f) = f x ++ xs.flatMap fun y => sep :: f y := by
  induction xs generalizing x with
  | nil => simp
  | cons y xs ih =>
    have hrest := ih y
    rw [List.map_cons] at hrest
    rw [List.map_cons, List.map_cons, List.intercalate_cons_cons, hrest, List.flatMap_cons]
    simp

theorem exists_map_eq {α β γ : Type} {f : β → α} {g : β → γ} {k : α → γ} {as : List α}
    (h : ∀ a ∈ as, ∃ b, f b = a ∧ g b = k a) :
    ∃ bs : List β, bs.map f = as ∧ bs.map g = as.map k := by
  induction as with
  | nil => exact ⟨[], rfl, rfl⟩
  | cons a as ih =>
    obtain ⟨b, rfl, hb⟩ := h a List.mem_cons_self
    obtain ⟨bs, rfl, hbs⟩ := ih fun x hx => h x (List.mem_cons_of_mem _ hx)
    exact ⟨b :: bs, rfl, by rw [List.map_cons, List.map_cons, hb, hbs]⟩

namespace TypeExpr

theorem exists_tupleTree {es : List (Element TypeExpr)}
    (h : ∀ e ∈ es, ∃ u : UnionTree, u.expr = e.item ∧ u.tokens = e.item.tokens) :
    ∃ p : PrimaryTree, p.expr = .tuple es ∧
      p.tokens = tupleTokens (es.map fun e => ⟨e.item.tokens, e.isRest⟩) := by
  obtain ⟨is, helements, htokens⟩ : ∃ is : List ItemTree, is.map ItemTree.element = es ∧
      is.map ItemTree.tokens = es.map fun e => itemTokens ⟨e.item.tokens, e.isRest⟩ := by
    refine exists_map_eq fun e he => ?_
    obtain ⟨u, hexpr, htokens⟩ := h e he
    refine ⟨.mk e.isRest u, ?_, ?_⟩
    · rw [ItemTree.element, hexpr]
    · rw [ItemTree.tokens, htokens]
      rfl
  have hmap : (es.map fun e => (⟨e.item.tokens, e.isRest⟩ : Element (List Token))).map itemTokens =
      is.map ItemTree.tokens := by
    rw [List.map_map]
    exact htokens.symm
  rw [tupleTokens, hmap]
  -- no element, one, or more
  match is, helements with
  | [], helements =>
    refine ⟨.unit, ?_, ?_⟩
    · rw [PrimaryTree.expr, ← helements]
      rfl
    · rw [PrimaryTree.tokens]
      rfl
  | [i], helements =>
    refine ⟨.tuple true i [], ?_, ?_⟩
    · rw [PrimaryTree.expr, ← helements]
      rfl
    · rw [PrimaryTree.tokens]
      simp
  | i :: j :: is, helements =>
    refine ⟨.tuple false i (j :: is), ?_, ?_⟩
    · rw [PrimaryTree.expr, ← helements]
      rfl
    · rw [PrimaryTree.tokens, ← intercalate_eq_flatMap]
      simp

/-- A spelled expression has a tree that derives its tokens. -/
theorem Spelled.exists_tree {e : TypeExpr} (h : e.Spelled) :
    (∃ u : UnionTree, u.expr = e ∧ u.tokens = e.tokens) ∧
      (¬ e.IsUnion → ∃ p : PrimaryTree, p.expr = e ∧ p.tokens = e.tokens) := by
  -- an expression that is no union is a union of one alternative
  have halone : ∀ {e : TypeExpr}, (∃ p : PrimaryTree, p.expr = e ∧ p.tokens = e.tokens) →
      ∃ u : UnionTree, u.expr = e ∧ u.tokens = e.tokens := by
    rintro e ⟨p, rfl, htokens⟩
    refine ⟨.alternatives p [], ?_, ?_⟩
    · rw [UnionTree.expr]
      rfl
    · rw [UnionTree.tokens, htokens]
      simp
  induction h with
  | @name head args _ _ ih =>
    suffices hprimary : ∃ p : PrimaryTree, p.expr = .name head args ∧
        p.tokens = (TypeExpr.name head args).tokens from ⟨halone hprimary, fun _ => hprimary⟩
    -- the arguments have trees, by induction
    obtain ⟨us, rfl, htokens⟩ := exists_map_eq fun a ha => (ih a ha).1
    rw [tokens]
    cases us with
    | nil =>
      refine ⟨.name head, ?_, ?_⟩
      · rw [PrimaryTree.expr]
        rfl
      · rw [PrimaryTree.tokens]
        rfl
    | cons u us =>
      refine ⟨.applied head u us, ?_, ?_⟩
      · rw [PrimaryTree.expr]
        rfl
      · rw [PrimaryTree.tokens, ← htokens, ← intercalate_eq_flatMap]
        rfl
  | @tuple es _ ih =>
    have hprimary := exists_tupleTree fun e he => (ih e he).1
    rw [← tokens] at hprimary
    exact ⟨halone hprimary, fun _ => hprimary⟩
  -- a union is never an alternative of another one, since the members are not unions
  | @union members htwo hflat _ ih =>
    refine ⟨?_, fun hno => absurd trivial hno⟩
    obtain ⟨ps, rfl, htokens⟩ := exists_map_eq fun m hm => (ih m hm).2 (hflat m hm)
    match ps, htwo with
    | p :: q :: ps, _ =>
      refine ⟨.alternatives p (q :: ps), ?_, ?_⟩
      · rw [UnionTree.expr]
        rfl
      · rw [UnionTree.tokens, tokens, ← htokens, ← intercalate_eq_flatMap]

/-- A spelled expression is read back from its text. -/
theorem parse_text {e : TypeExpr} (h : e.Spelled) : parse e.text = .ok e := by
  have hlexes := h.spells [] [] (by simp [Token.Boundary]) .nil
  rw [List.append_nil, List.append_nil] at hlexes
  obtain ⟨u, hexpr, htokens⟩ := h.exists_tree.1
  obtain ⟨placed, hscan, hplaced⟩ := hlexes 0
  have hsplits := Token.splits_of_scan hscan
  rw [hplaced, ← htokens] at hsplits
  rw [parse_of_derivation ⟨u, hsplits⟩, hexpr]

end TypeExpr

end Supertypes
