import Supertypes.Proofs.ResolutionInStep

/-!
# Texts with other words in them

- `Token.respellWords`: a text in which each word is replaced by another one. Its tokens are
  those of the text with the words replaced, and the tree that derives them has the same shape
  (`UnionTree.respell`).
- `TypeExpr.parse_respell`: it spells an expression that differs in its names only.
-/

namespace Supertypes

/-! ## Words of a text -/

namespace Token

variable {f : String → String} {cs : List Char} {ts : List Token}

/-- The token with its word replaced. -/
def respell (f : String → String) : Token → Token
  | .word w => .word (f w)
  | token => token

/-- What stands for a word that has been read, given its letters with the last one first. -/
def respelled (f : String → String) : Option (List Char) → List Char
  | none => []
  | some letters => (f (String.ofList letters.reverse)).toList

/-- Replace the words in the remaining characters, in the midst of the word `open?` or between
tokens. -/
def respellFrom (f : String → String) (open? : Option (List Char)) : List Char → List Char
  | [] => respelled f open?
  | c :: rest =>
    match open?.filter fun _ => continuesWord c with
    | some letters => respellFrom f (some (c :: letters)) rest
    | none =>
      respelled f open? ++
        if startsWord c then respellFrom f (some [c]) rest else c :: respellFrom f none rest

/-- The text with each word replaced. -/
def respellWords (f : String → String) (source : String) : String :=
  String.ofList (respellFrom f none source.toList)

/-- The word that a token is. -/
def word? : Token → Option String
  | .word w => some w
  | _ => none

/-- The words of a text. -/
def words (source : String) : List String :=
  match ofString source with
  | .ok placed => placed.filterMap fun p => p.token.word?
  | .error _ => []

/-- Every word among the tokens of a text is one of its words. -/
theorem mem_words {source w : String} {placed : List PlacedToken}
    (h : ofString source = .ok placed) (hw : .word w ∈ placed.map PlacedToken.token) :
    w ∈ words source := by
  obtain ⟨p, hp, hword⟩ := List.mem_map.mp hw
  unfold words
  rw [h]
  exact List.mem_filterMap.mpr ⟨p, hp, by rw [hword]; rfl⟩

instance (s : String) : Decidable (IsWord s) :=
  match h : s.toList with
  | [] => isFalse fun ⟨_, _, heq, _⟩ => by
    rw [h] at heq
    cases heq
  | c :: rest =>
    -- not a bounded `∀`, which would be decided by going through all characters
    decidable_of_iff (startsWord c = true ∧ rest.all continuesWord = true) <| by
      constructor
      · rintro ⟨hc, hrest⟩
        exact ⟨c, rest, h, isBlank_of_startsWord hc, ofChar?_of_startsWord hc, hc,
          List.all_eq_true.mp hrest⟩
      · rintro ⟨d, rest', heq, -, -, hd, hrest⟩
        rw [h] at heq
        obtain ⟨rfl, rfl⟩ := List.cons.inj heq
        exact ⟨hd, List.all_eq_true.mpr hrest⟩

/-- Between words a character is copied. -/
theorem respellFrom_skip {c : Char} (h : startsWord c = false) :
    respellFrom f none (c :: cs) = c :: respellFrom f none cs := by
  rw [respellFrom]
  simp only [Option.filter_none, h]
  rfl

/-- A word ends at a boundary. -/
theorem respellFrom_close (hcs : Boundary cs) (letters : List Char) :
    respellFrom f (some letters) cs =
      (f (String.ofList letters.reverse)).toList ++ respellFrom f none cs := by
  cases cs with
  | nil => exact (List.append_nil _).symm
  | cons c cs =>
    have hc : continuesWord c = false := hcs c rfl
    rw [respellFrom, respellFrom]
    simp only [Option.filter_some, hc, Option.filter_none]
    rfl

/-- A word is replaced as a whole. -/
theorem respellFrom_letters {letters : List Char} (h : ∀ c ∈ letters, continuesWord c = true)
    (hcs : Boundary cs) (first : List Char) :
    respellFrom f (some first) (letters ++ cs) =
      (f (String.ofList (first.reverse ++ letters))).toList ++ respellFrom f none cs := by
  induction letters generalizing first with
  | nil =>
    rw [List.nil_append, List.append_nil]
    exact respellFrom_close hcs first
  | cons c letters ih =>
    have hrest := ih (fun d hd => h d (List.mem_cons_of_mem c hd)) (c :: first)
    rw [List.reverse_cons, List.append_assoc] at hrest
    rw [List.cons_append, respellFrom]
    simp only [Option.filter_some, h c List.mem_cons_self, if_true]
    exact hrest

theorem continuesWord_of_startsWord {c : Char} (h : startsWord c = true) :
    continuesWord c = true := by
  unfold startsWord at h
  unfold continuesWord
  rcases Bool.or_eq_true_iff.mp h with h | h
  · simp [h]
  · simp [h]

/-- What follows a word is not touched. -/
theorem Boundary.respell (h : Boundary cs) : Boundary (respellFrom f none cs) := by
  cases cs with
  | nil => exact h
  | cons c cs =>
    have hc : continuesWord c = false := h c rfl
    have hstarts : startsWord c = false := by
      rw [Bool.eq_false_iff] at hc ⊢
      exact mt continuesWord_of_startsWord hc
    rw [respellFrom_skip hstarts]
    intro d hd
    obtain rfl := Option.some.inj hd
    exact hc

theorem startsWord_of_blank {c : Char} (h : Unicode.isBlank c = true) : startsWord c = false := by
  rw [Bool.eq_false_iff]
  intro hstarts
  rw [isBlank_of_startsWord hstarts] at h
  cases h

theorem startsWord_of_mark {c : Char} {mark : Token} (h : ofChar? c = some mark) :
    startsWord c = false := by
  rw [Bool.eq_false_iff]
  intro hstarts
  rw [ofChar?_of_startsWord hstarts] at h
  cases h

/-- The tokens of a text with other words in it. -/
theorem Splits.respell (h : Splits cs ts) (hf : ∀ w, .word w ∈ ts → IsWord (f w)) :
    Splits (respellFrom f none cs) (ts.map (Token.respell f)) := by
  induction h with
  | nil => exact .nil
  | blank hc _ ih =>
    rw [respellFrom_skip (startsWord_of_blank hc)]
    exact .blank hc (ih hf)
  | @mark c mark cs ts hc _ ih =>
    have hmark : Token.respell f mark = mark := by
      cases mark with
      | word w => exact absurd hc (ofChar?_ne_word c w)
      | openBracket | closeBracket | openParen | closeParen | comma | bar | star => rfl
    rw [respellFrom_skip (startsWord_of_mark hc), List.map_cons, hmark]
    exact .mark hc (ih fun w hw => hf w (List.mem_cons_of_mem _ hw))
  | @word c letters cs ts hc hletters hend _ ih =>
    obtain ⟨c', letters', heq, -, -, hc', hletters'⟩ := hf _ List.mem_cons_self
    have hword : respellFrom f none (c :: letters ++ cs) =
        c' :: letters' ++ respellFrom f none cs := by
      rw [← heq, List.cons_append, respellFrom]
      simp only [Option.filter_none, hc, if_true]
      exact respellFrom_letters hletters hend [c]
    have hname : f (String.ofList (c :: letters)) = String.ofList (c' :: letters') := by
      rw [← heq, String.ofList_toList]
    rw [hword, List.map_cons, Token.respell, hname]
    exact .word hc' hletters' hend.respell (ih fun w hw => hf w (List.mem_cons_of_mem _ hw))

end Token

/-! ## Trees -/

section Trees

variable (f : String → String)

mutual

/-- The tree with each word replaced. -/
def UnionTree.respell : UnionTree → UnionTree
  | .alternatives first more => .alternatives first.respell (more.map PrimaryTree.respell)

/-- The tree with each word replaced. -/
def PrimaryTree.respell : PrimaryTree → PrimaryTree
  | .name head => .name (f head)
  | .applied head first more => .applied (f head) first.respell (more.map UnionTree.respell)
  | .unit => .unit
  | .tuple comma first more => .tuple comma first.respell (more.map ItemTree.respell)

/-- The tree with each word replaced. -/
def ItemTree.respell : ItemTree → ItemTree
  | .mk star type => .mk star type.respell

end

/-- Entries that come to respelled tokens, with separators before them. -/
theorem flatMap_respell {α : Type} {g : α → List Token} {k : α → α} {xs : List α} {sep : Token}
    (hsep : sep.respell f = sep) (h : ∀ x ∈ xs, g (k x) = (g x).map (Token.respell f)) :
    ((xs.map k).flatMap fun x => sep :: g x) =
      (xs.flatMap fun x => sep :: g x).map (Token.respell f) := by
  rw [List.flatMap_map, List.map_flatMap]
  refine List.flatMap_congr fun x hx => ?_
  rw [List.map_cons, hsep, h x hx]

theorem Token.tupleEnd_respell (comma : Bool) :
    (tupleEnd comma).map (Token.respell f) = tupleEnd comma := by
  cases comma <;> rfl

mutual

/-- Respelling a union respells its tokens. -/
theorem UnionTree.tokens_respell : ∀ u : UnionTree,
    (u.respell f).tokens = u.tokens.map (Token.respell f)
  | .alternatives first more => by
    have hmore : ∀ p ∈ more, (p.respell f).tokens = p.tokens.map (Token.respell f) :=
      fun p _ => p.tokens_respell
    rw [UnionTree.respell, UnionTree.tokens, UnionTree.tokens, first.tokens_respell,
      flatMap_respell f rfl hmore, List.map_append]

/-- Respelling a primary respells its tokens. -/
theorem PrimaryTree.tokens_respell : ∀ p : PrimaryTree,
    (p.respell f).tokens = p.tokens.map (Token.respell f)
  | .name head => by
    rw [PrimaryTree.respell, PrimaryTree.tokens, PrimaryTree.tokens]
    rfl
  | .applied head first more => by
    have hmore : ∀ u ∈ more, (u.respell f).tokens = u.tokens.map (Token.respell f) :=
      fun u _ => u.tokens_respell
    rw [PrimaryTree.respell, PrimaryTree.tokens, PrimaryTree.tokens, first.tokens_respell,
      flatMap_respell f rfl hmore]
    simp [Token.respell]
  | .unit => by
    rw [PrimaryTree.respell, PrimaryTree.tokens]
    rfl
  | .tuple comma first more => by
    have hmore : ∀ i ∈ more, (i.respell f).tokens = i.tokens.map (Token.respell f) :=
      fun i _ => i.tokens_respell
    rw [PrimaryTree.respell, PrimaryTree.tokens, PrimaryTree.tokens, first.tokens_respell,
      flatMap_respell f rfl hmore]
    simp [Token.respell, Token.tupleEnd_respell]

/-- Respelling a tuple element respells its tokens. -/
theorem ItemTree.tokens_respell : ∀ i : ItemTree,
    (i.respell f).tokens = i.tokens.map (Token.respell f)
  | .mk star type => by
    rw [ItemTree.respell, ItemTree.tokens, ItemTree.tokens, type.tokens_respell]
    cases star <;> rfl

end

end Trees

/-! ## Expressions -/

namespace TypeExpr

variable {S : String → String → Prop}

/-- Tuples whose elements differ in names only. -/
theorem Respelled.of_elements {es es' : List (Element TypeExpr)}
    (h : List.Forall₂ (fun e e' => Respelled S e.item e'.item ∧ e.isRest = e'.isRest) es es') :
    Respelled S (.tuple es) (.tuple es') := by
  refine .tuple ?_ ?_
  · rw [List.forall₂_map_left_iff, List.forall₂_map_right_iff]
    exact h.imp fun _ _ he => he.1
  · induction h with
    | nil => rfl
    | cons he _ ih => rw [List.map_cons, List.map_cons, he.2, ih]

theorem respelled_ofAlternatives {first first' : TypeExpr} {more more' : List TypeExpr}
    (hfirst : Respelled S first first') (hmore : List.Forall₂ (Respelled S) more more') :
    Respelled S (ofAlternatives first more) (ofAlternatives first' more') := by
  unfold ofAlternatives
  cases hmore with
  | nil => exact hfirst
  | cons h hmore => exact .union (.cons hfirst (.cons h hmore))

end TypeExpr

section Trees

variable {S : String → String → Prop} {f : String → String}

mutual

/-- A respelled union stands for the respelled expression. -/
theorem UnionTree.respelled : ∀ u : UnionTree, (∀ w, .word w ∈ u.tokens → S w (f w)) →
    TypeExpr.Respelled S u.expr (u.respell f).expr
  | .alternatives first more, h => by
    rw [UnionTree.tokens] at h
    rw [UnionTree.respell, UnionTree.expr, UnionTree.expr]
    refine TypeExpr.respelled_ofAlternatives
      (first.respelled fun w hw => h w (List.mem_append_left _ hw)) ?_
    rw [List.map_map, List.forall₂_map_left_iff, List.forall₂_map_right_iff]
    exact List.forall₂_same.mpr fun p hp =>
      p.respelled fun w hw => h w (List.mem_append_right _ (mem_flatMap_separated .bar hp hw))

/-- A respelled primary stands for the respelled expression. -/
theorem PrimaryTree.respelled : ∀ p : PrimaryTree, (∀ w, .word w ∈ p.tokens → S w (f w)) →
    TypeExpr.Respelled S p.expr (p.respell f).expr
  | .name head, h => by
    rw [PrimaryTree.tokens] at h
    rw [PrimaryTree.respell, PrimaryTree.expr, PrimaryTree.expr]
    exact .name (h head List.mem_cons_self) .nil
  | .applied head first more, h => by
    rw [PrimaryTree.tokens] at h
    rw [PrimaryTree.respell, PrimaryTree.expr, PrimaryTree.expr]
    refine .name (h head List.mem_cons_self) (.cons (first.respelled fun w hw => h w ?_) ?_)
    · simp [hw]
    · rw [List.map_map, List.forall₂_map_left_iff, List.forall₂_map_right_iff]
      refine List.forall₂_same.mpr fun u hu => u.respelled fun w hw => ?_
      have hargs := mem_flatMap_separated .comma hu hw
      exact h w (by simp [hargs])
  | .unit, _ => by
    rw [PrimaryTree.respell, PrimaryTree.expr]
    exact .of_elements .nil
  | .tuple comma first more, h => by
    rw [PrimaryTree.tokens] at h
    rw [PrimaryTree.respell, PrimaryTree.expr, PrimaryTree.expr]
    refine .of_elements (.cons (first.respelled fun w hw => h w ?_) ?_)
    · simp [hw]
    · rw [List.map_map, List.forall₂_map_left_iff, List.forall₂_map_right_iff]
      refine List.forall₂_same.mpr fun i hi => i.respelled fun w hw => ?_
      have hitems := mem_flatMap_separated .comma hi hw
      exact h w (by simp [hitems])

/-- A respelled tuple element stands for the respelled expression. -/
theorem ItemTree.respelled : ∀ i : ItemTree, (∀ w, .word w ∈ i.tokens → S w (f w)) →
    TypeExpr.Respelled S i.element.item (i.respell f).element.item ∧
      i.element.isRest = (i.respell f).element.isRest
  | .mk star type, h => by
    rw [ItemTree.tokens] at h
    rw [ItemTree.respell, ItemTree.element, ItemTree.element]
    refine ⟨type.respelled fun w hw => h w ?_, rfl⟩
    cases star with
    | true => exact List.mem_cons_of_mem _ hw
    | false => exact hw

end

/-- A text is read under other words as it is read as it stands. -/
theorem TypeExpr.parse_respell {source : String} {e : TypeExpr} (h : parse source = .ok e)
    (hf : ∀ w ∈ Token.words source, Token.IsWord w → Token.IsWord (f w) ∧ S w (f w)) :
    ∃ e', parse (Token.respellWords f source) = .ok e' ∧ Respelled S e e' := by
  obtain ⟨d, rfl⟩ := exists_derivation_of_parse h
  have hwords : ∀ w, .word w ∈ d.tree.tokens → Token.IsWord (f w) ∧ S w (f w) := by
    intro w hw
    obtain ⟨placed, hscan, hplaced⟩ := d.splits.lexes 0
    exact hf w (Token.mem_words hscan (hplaced.symm ▸ hw)) (d.splits.isWord hw)
  have hsplits : Token.Splits (Token.respellWords f source).toList (d.tree.respell f).tokens := by
    rw [Token.respellWords, String.toList_ofList, UnionTree.tokens_respell]
    exact d.splits.respell fun w hw => (hwords w hw).1
  exact ⟨_, parse_of_derivation ⟨_, hsplits⟩, d.tree.respelled fun w hw => (hwords w hw).2⟩

end Trees

end Supertypes
