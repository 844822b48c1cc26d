import Supertypes.Expr.Parser
import Supertypes.Proofs.Lexing

/-!
# The grammar of type expressions

- `UnionTree`, `PrimaryTree` and `ItemTree` are the derivations of the grammar, one constructor
  for each way in which a rule can be applied. `tokens` is what a tree derives and `expr` the
  expression that it stands for.
- `UnionTree.taken`: the reader takes in what a tree derives, and makes the expression of the
  tree.
- `Reader.Read.run`: what a reader has taken in is what some tree derives.
- `UnionTree.eq_of_append`: no other tree derives the same tokens, even if more tokens follow, as
  long as those could not go on with it.
- `TypeExpr.parse_iff`: a text is read as an expression just if it splits into the tokens of a
  tree that stands for the expression, and there is no more than one such tree.
-/

namespace Supertypes

/-! ## Trees -/

mutual

/-- A derivation of `union`. -/
inductive UnionTree
  | alternatives (first : PrimaryTree) (more : List PrimaryTree)

/-- A derivation of `primary`: a word, a word with arguments, `()`, or a tuple with items, of
which the last may be followed by a comma. -/
inductive PrimaryTree
  | name (head : String)
  | applied (head : String) (first : UnionTree) (more : List UnionTree)
  | unit
  | tuple (comma : Bool) (first : ItemTree) (more : List ItemTree)

/-- A derivation of `item`. -/
inductive ItemTree
  | mk (star : Bool) (type : UnionTree)

end

/-- The end of a tuple, with or without the comma that may stand after the last item. -/
def Token.tupleEnd (comma : Bool) : List Token :=
  if comma then [.comma, .closeParen] else [.closeParen]

@[simp] theorem Token.tupleEnd_true : tupleEnd true = [.comma, .closeParen] :=
  rfl

@[simp] theorem Token.tupleEnd_false : tupleEnd false = [.closeParen] :=
  rfl

mutual

/-- The tokens that a tree derives. -/
def UnionTree.tokens : UnionTree → List Token
  | .alternatives first more => first.tokens ++ more.flatMap fun p => .bar :: p.tokens

/-- The tokens that a tree derives. -/
def PrimaryTree.tokens : PrimaryTree → List Token
  | .name head => [.word head]
  | .applied head first more =>
    .word head :: .openBracket ::
      (first.tokens ++ (more.flatMap fun u => .comma :: u.tokens) ++ [.closeBracket])
  | .unit => [.openParen, .closeParen]
  | .tuple comma first more =>
    .openParen :: (first.tokens ++ (more.flatMap fun i => .comma :: i.tokens) ++
      Token.tupleEnd comma)

/-- The tokens that a tree derives. -/
def ItemTree.tokens : ItemTree → List Token
  | .mk star type => if star then .star :: type.tokens else type.tokens

end

/-- A single alternative is the type itself. -/
def TypeExpr.ofAlternatives (first : TypeExpr) (more : List TypeExpr) : TypeExpr :=
  if more.isEmpty then first else .union (first :: more)

mutual

/-- The expression that a tree stands for. -/
def UnionTree.expr : UnionTree → TypeExpr
  | .alternatives first more => .ofAlternatives first.expr (more.map PrimaryTree.expr)

/-- The expression that a tree stands for. -/
def PrimaryTree.expr : PrimaryTree → TypeExpr
  | .name head => .name head []
  | .applied head first more => .name head (first.expr :: more.map UnionTree.expr)
  | .unit => .tuple []
  | .tuple _ first more => .tuple (first.element :: more.map ItemTree.element)

/-- The tuple element that a tree stands for. -/
def ItemTree.element : ItemTree → Element TypeExpr
  | .mk star type => ⟨type.expr, star⟩

end

/-! ## Taking tokens in -/

namespace Reader

/-- Take several tokens. -/
def steps (reader : Reader) (ts : List Token) : Except Refusal Reader :=
  ts.foldlM step reader

theorem steps_cons (reader : Reader) (token : Token) (ts : List Token) :
    reader.steps (token :: ts) = reader.step token >>= fun next => next.steps ts :=
  rfl

/-- Taking tokens can be interrupted and resumed. -/
theorem steps_append (reader : Reader) (ts us : List Token) :
    reader.steps (ts ++ us) = reader.steps ts >>= fun next => next.steps us :=
  List.foldlM_append

/-- Where no token is refused the places do not matter. -/
theorem run_append {reader next : Reader} {before : List PlacedToken}
    (h : reader.steps (before.map PlacedToken.token) = .ok next) (after : List PlacedToken) :
    reader.run (before ++ after) = next.run after := by
  induction before generalizing reader with
  | nil =>
    obtain rfl := Except.ok.inj h
    rfl
  | cons placed rest ih =>
    rw [List.map_cons, steps_cons] at h
    cases hstep : reader.step placed.token with
    | error refusal =>
      rw [hstep] at h
      cases h
    | ok reader' =>
      rw [hstep] at h
      rw [List.cons_append, run, hstep]
      exact ih h

/-- Once the tokens have been taken, what is left is to end the text. -/
theorem run_of_steps {reader next : Reader} {tokens : List PlacedToken}
    (h : reader.steps (tokens.map PlacedToken.token) = .ok next) :
    reader.run tokens = next.finish.mapError .unexpectedEnd := by
  rw [← List.append_nil tokens, run_append h, run]

/-- The last member of a union has been read, as far as anything but arguments may follow. -/
inductive Ended (frames : List Frame) (members : List TypeExpr) : TypeExpr → Reader → Prop
  | word (head : String) : Ended frames members (.name head []) (.word frames members head)
  | member (last : TypeExpr) : Ended frames members last (.member frames members last)

variable {frames : List Frame} {members : List TypeExpr} {last : TypeExpr} {reader : Reader}

/-- A reader after a member takes every token but an opening bracket in the same way, whether the
member was a word or not. -/
theorem Ended.step (h : Ended frames members last reader) {token : Token}
    (htoken : token ≠ .openBracket) :
    reader.step token = stepMember frames members last token := by
  cases h with
  | word head =>
    unfold Reader.step
    split <;> simp_all
  | member last => rfl

/-- So does the end of the text. -/
theorem Ended.finish (h : Ended frames members last reader) :
    reader.finish = finishMember frames members last := by
  cases h with
  | word head => rfl
  | member last => rfl

/-- A whole expression has been read inside the innermost bracket. -/
def Whole (frames : List Frame) (e : TypeExpr) (reader : Reader) : Prop :=
  ∃ members last, Ended frames members last reader ∧ unionOf members last = e

section Brackets

variable {before : List TypeExpr} {e : TypeExpr}

/-- After an argument, a comma waits for the next one and a bracket ends the list. -/
theorem Whole.step_args {head : String} {done : List TypeExpr}
    (h : Whole (.args before head done :: frames) e reader) :
    reader.step .comma = .ok (.type (.args before head (e :: done) :: frames) []) ∧
      reader.step .closeBracket = .ok (.member frames before (.name head (e :: done).reverse)) := by
  obtain ⟨members, last, hended, rfl⟩ := h
  rw [hended.step (by simp), hended.step (by simp)]
  exact ⟨rfl, rfl⟩

/-- After a tuple element, a comma waits for the next one and a parenthesis ends the tuple. -/
theorem Whole.step_tuple {done : List (Element TypeExpr)} {isRest : Bool}
    (h : Whole (.tuple before done isRest :: frames) e reader) :
    reader.step .comma = .ok (.element frames before (⟨e, isRest⟩ :: done)) ∧
      reader.step .closeParen =
        .ok (.member frames before (.tuple (⟨e, isRest⟩ :: done).reverse)) := by
  obtain ⟨members, last, hended, rfl⟩ := h
  rw [hended.step (by simp), hended.step (by simp)]
  exact ⟨rfl, rfl⟩

end Brackets

end Reader

/-! ## First tokens -/

/-- A type starts with neither a star nor a closing parenthesis. -/
theorem PrimaryTree.exists_tokens_eq_cons (p : PrimaryTree) :
    ∃ token rest, p.tokens = token :: rest ∧ token ≠ .star ∧ token ≠ .closeParen := by
  cases p <;> rw [tokens] <;> exact ⟨_, _, rfl, by simp, by simp⟩

/-- A union starts with a token that is neither a star nor the end of a tuple. -/
theorem UnionTree.exists_tokens_eq_cons (u : UnionTree) :
    ∃ token rest, u.tokens = token :: rest ∧ token ≠ .star ∧ token ≠ .closeParen := by
  obtain ⟨first, more⟩ := u
  obtain ⟨token, rest, heq, hstar, hclose⟩ := first.exists_tokens_eq_cons
  rw [tokens, heq]
  exact ⟨token, _, rfl, hstar, hclose⟩

/-- An item does not start with a closing parenthesis. -/
theorem ItemTree.exists_tokens_eq_cons (i : ItemTree) :
    ∃ token rest, i.tokens = token :: rest ∧ token ≠ .closeParen := by
  obtain ⟨star, u⟩ := i
  rw [tokens]
  cases star with
  | true => exact ⟨_, _, rfl, by simp⟩
  | false =>
    obtain ⟨token, rest, heq, -, hclose⟩ := u.exists_tokens_eq_cons
    exact ⟨token, rest, heq, hclose⟩

/-! ## Taking in what a tree derives -/

namespace Reader

/-- Two runs of the reader, one behind the other. -/
theorem steps_trans {a b c : Reader} {ts us : List Token} (h : a.steps ts = .ok b)
    (h' : b.steps us = .ok c) : a.steps (ts ++ us) = .ok c := by
  rw [steps_append, h]
  exact h'

theorem steps_cons_of_step {a b : Reader} {token : Token} (h : a.step token = .ok b)
    (ts : List Token) : a.steps (token :: ts) = b.steps ts := by
  rw [steps_cons, h]
  rfl

/-- The union that the reader makes, its members in the order written. -/
theorem unionOf_eq {members : List TypeExpr} {last first : TypeExpr} {more : List TypeExpr}
    (h : (last :: members).reverse = first :: more) :
    unionOf members last = .ofAlternatives first more := by
  unfold TypeExpr.ofAlternatives
  cases members with
  | nil =>
    obtain ⟨rfl, rfl⟩ : last = first ∧ more = [] := by simpa [eq_comm] using h
    rfl
  | cons m members =>
    have hmore : more ≠ [] := by
      rintro rfl
      have hlength := congrArg List.length h
      simp at hlength
    rw [unionOf, h, if_neg (by simpa using hmore)]
    simp

/-- Without a star a token opens the element of a tuple. -/
theorem step_element {token : Token} (hstar : token ≠ .star) (hclose : token ≠ .closeParen)
    (frames : List Frame) (before : List TypeExpr) (done : List (Element TypeExpr)) :
    step (.element frames before done) token =
      step (.type (.tuple before done false :: frames) []) token := by
  cases token <;> first | rfl | contradiction

end Reader

open Reader

/-- What a tree derives is taken in as one more member of a union. -/
def PrimaryTree.Taken (p : PrimaryTree) : Prop :=
  ∀ frames members, ∃ reader,
    Reader.steps (.type frames members) p.tokens = .ok reader ∧ Ended frames members p.expr reader

/-- What a tree derives is taken in wherever a type may stand. -/
def UnionTree.Taken (u : UnionTree) : Prop :=
  ∀ frames, ∃ reader,
    Reader.steps (.type frames []) u.tokens = .ok reader ∧ Whole frames u.expr reader

/-- What a tree derives is taken in as one more element of a tuple. -/
def ItemTree.Taken (i : ItemTree) : Prop :=
  ∀ frames before done, ∃ reader,
    Reader.steps (.element frames before done) i.tokens = .ok reader ∧
      Whole (.tuple before done i.element.isRest :: frames) i.element.item reader

variable {frames : List Frame} {before members : List TypeExpr} {reader : Reader}

/-- The alternatives after the first. -/
theorem steps_alternatives {more : List PrimaryTree} (h : ∀ p ∈ more, p.Taken) {last : TypeExpr}
    (hended : Ended frames members last reader) : ∃ next members' last',
      reader.steps (more.flatMap fun p => .bar :: p.tokens) = .ok next ∧
      Ended frames members' last' next ∧
      (last' :: members').reverse = (last :: members).reverse ++ more.map PrimaryTree.expr := by
  induction more generalizing reader members last with
  | nil => exact ⟨reader, members, last, rfl, hended, by simp⟩
  | cons p more ih =>
    have hbar : reader.step .bar = .ok (.type frames (last :: members)) := by
      rw [hended.step (by simp)]
      rfl
    obtain ⟨reader', hsteps, hended'⟩ := h p List.mem_cons_self frames (last :: members)
    obtain ⟨next, members', last', hmore, hnext, heq⟩ :=
      ih (fun q hq => h q (List.mem_cons_of_mem _ hq)) hended'
    refine ⟨next, members', last', ?_, hnext, ?_⟩
    · rw [List.flatMap_cons, List.cons_append, steps_cons_of_step hbar]
      exact steps_trans hsteps hmore
    · rw [heq, List.map_cons, List.reverse_cons, List.append_assoc, List.singleton_append]

/-- The arguments after the first, up to the bracket that closes them. -/
theorem steps_arguments {more : List UnionTree} (h : ∀ u ∈ more, u.Taken) {head : String}
    {done : List TypeExpr} {e : TypeExpr}
    (hwhole : Whole (.args before head done :: frames) e reader) :
    reader.steps ((more.flatMap fun u => .comma :: u.tokens) ++ [.closeBracket]) =
      .ok (.member frames before (.name head (done.reverse ++ e :: more.map UnionTree.expr))) := by
  obtain ⟨hcomma, hclose⟩ := hwhole.step_args
  induction more generalizing reader done e with
  | nil =>
    rw [List.flatMap_nil, List.nil_append, steps_cons_of_step hclose, List.reverse_cons]
    rfl
  | cons u more ih =>
    obtain ⟨next, hsteps, hnext⟩ := h u List.mem_cons_self (.args before head (e :: done) :: frames)
    have hmore := ih (fun v hv => h v (List.mem_cons_of_mem _ hv)) hnext hnext.step_args.1
      hnext.step_args.2
    rw [List.flatMap_cons, List.cons_append, List.cons_append, steps_cons_of_step hcomma,
      List.append_assoc, steps_trans hsteps hmore]
    simp

/-- The elements after the first, up to the parenthesis that closes them. -/
theorem steps_items {more : List ItemTree} (h : ∀ i ∈ more, i.Taken)
    {done : List (Element TypeExpr)} {isRest : Bool} {e : TypeExpr}
    (hwhole : Whole (.tuple before done isRest :: frames) e reader) (comma : Bool) :
    reader.steps ((more.flatMap fun i => .comma :: i.tokens) ++ Token.tupleEnd comma) =
      .ok (.member frames before
        (.tuple (done.reverse ++ ⟨e, isRest⟩ :: more.map ItemTree.element))) := by
  obtain ⟨hcomma, hclose⟩ := hwhole.step_tuple
  induction more generalizing reader done isRest e with
  | nil =>
    rw [List.flatMap_nil, List.nil_append, List.map_nil, ← List.reverse_cons]
    cases comma with
    | true =>
      rw [Token.tupleEnd_true, steps_cons_of_step hcomma]
      rfl
    | false =>
      rw [Token.tupleEnd_false, steps_cons_of_step hclose]
      rfl
  | cons i more ih =>
    obtain ⟨next, hsteps, hnext⟩ := h i List.mem_cons_self frames before (⟨e, isRest⟩ :: done)
    have hmore := ih (fun j hj => h j (List.mem_cons_of_mem _ hj)) hnext hnext.step_tuple.1
      hnext.step_tuple.2
    rw [List.flatMap_cons, List.cons_append, List.cons_append, steps_cons_of_step hcomma,
      List.append_assoc, steps_trans hsteps hmore]
    simp

mutual

/-- What a tree derives is taken in. -/
theorem UnionTree.taken : ∀ u : UnionTree, u.Taken
  | .alternatives first more => by
    intro frames
    have hmore : ∀ p ∈ more, p.Taken := fun p _ => p.taken
    obtain ⟨reader, hsteps, hended⟩ := first.taken frames []
    obtain ⟨next, members, last, hnext, hended', heq⟩ := steps_alternatives hmore hended
    rw [UnionTree.tokens]
    refine ⟨next, steps_trans hsteps hnext, members, last, hended', ?_⟩
    rw [UnionTree.expr]
    exact unionOf_eq heq

/-- The reader takes in what a primary derives. -/
theorem PrimaryTree.taken : ∀ p : PrimaryTree, p.Taken
  | .name head => by
    intro frames members
    rw [PrimaryTree.tokens, PrimaryTree.expr]
    exact ⟨_, rfl, .word head⟩
  | .applied head first more => by
    intro frames members
    have hmore : ∀ u ∈ more, u.Taken := fun u _ => u.taken
    obtain ⟨reader, hsteps, hwhole⟩ := first.taken (.args members head [] :: frames)
    have hall := steps_trans hsteps (steps_arguments hmore hwhole)
    rw [PrimaryTree.tokens, PrimaryTree.expr, List.append_assoc]
    exact ⟨_, hall, .member _⟩
  | .unit => by
    intro frames members
    rw [PrimaryTree.tokens, PrimaryTree.expr]
    exact ⟨_, rfl, .member _⟩
  | .tuple comma first more => by
    intro frames members
    have hmore : ∀ i ∈ more, i.Taken := fun i _ => i.taken
    obtain ⟨reader, hsteps, hwhole⟩ := first.taken frames members []
    have hall := steps_trans hsteps (steps_items hmore hwhole comma)
    rw [PrimaryTree.tokens, PrimaryTree.expr, List.append_assoc]
    exact ⟨_, hall, .member _⟩

/-- The reader takes in what a tuple element derives. -/
theorem ItemTree.taken : ∀ i : ItemTree, i.Taken
  | .mk star u => by
    intro frames before done
    obtain ⟨reader, hsteps, hwhole⟩ := u.taken (.tuple before done star :: frames)
    rw [ItemTree.tokens, ItemTree.element]
    refine ⟨reader, ?_, hwhole⟩
    cases star with
    | true => exact hsteps
    | false =>
      obtain ⟨token, rest, heq, hstar, hclose⟩ := u.exists_tokens_eq_cons
      rw [if_neg (by simp), heq, steps_cons, Reader.step_element hstar hclose]
      rw [heq, steps_cons] at hsteps
      exact hsteps

end

/-! ## Trees from what has been taken in -/

section Separators

variable {α : Type} (f : α → List Token) (sep : Token)

/-- Separators in front of the later entries instead of behind all of them. -/
theorem flatMap_cons_separated (x : α) (xs : List α) :
    ((x :: xs).flatMap fun y => f y ++ [sep]) =
      f x ++ (xs.flatMap fun y => sep :: f y) ++ [sep] := by
  induction xs generalizing x with
  | nil => simp
  | cons y xs ih =>
    rw [List.flatMap_cons, ih]
    simp

theorem flatMap_append_last {xs : List α} {x first : α} {more : List α}
    (h : xs ++ [x] = first :: more) :
    (xs.flatMap fun y => f y ++ [sep]) ++ f x = f first ++ more.flatMap fun y => sep :: f y := by
  have hall := flatMap_cons_separated f sep first more
  rw [← h, List.flatMap_append, List.flatMap_singleton, ← List.append_assoc] at hall
  exact List.append_cancel_right hall

end Separators

namespace Reader

/-- The expressions of trees, the last one first. -/
def exprs (ps : List PrimaryTree) : List TypeExpr :=
  (ps.map PrimaryTree.expr).reverse

/-- Alternatives that have been read, each with the bar after it. -/
def barred (ps : List PrimaryTree) : List Token :=
  ps.flatMap fun p => p.tokens ++ [.bar]

/-- The open brackets stand for these tokens. -/
inductive Opened : List Frame → List Token → Prop
  | nil : Opened [] []
  | args {frames : List Frame} {ts : List Token} (h : Opened frames ts) (ps : List PrimaryTree)
    (head : String) (us : List UnionTree) :
    Opened (.args (exprs ps) head (us.map UnionTree.expr).reverse :: frames)
      (ts ++ barred ps ++ .word head :: .openBracket :: us.flatMap fun u => u.tokens ++ [.comma])
  | tuple {frames : List Frame} {ts : List Token} (h : Opened frames ts) (ps : List PrimaryTree)
    (is : List ItemTree) (star : Bool) :
    Opened (.tuple (exprs ps) (is.map ItemTree.element).reverse star :: frames)
      (ts ++ barred ps ++ .openParen :: (is.flatMap fun i => i.tokens ++ [.comma]) ++
        if star then [.star] else [])

/-- The reader has taken in these tokens. -/
inductive Read : Reader → List Token → Prop
  | type {frames : List Frame} {ts : List Token} (h : Opened frames ts) (ps : List PrimaryTree) :
    Read (.type frames (exprs ps)) (ts ++ barred ps)
  | element {frames : List Frame} {ts : List Token} (h : Opened frames ts) (ps : List PrimaryTree)
    (is : List ItemTree) :
    Read (.element frames (exprs ps) (is.map ItemTree.element).reverse)
      (ts ++ barred ps ++ .openParen :: is.flatMap fun i => i.tokens ++ [.comma])
  | word {frames : List Frame} {ts : List Token} (h : Opened frames ts) (ps : List PrimaryTree)
    (head : String) : Read (.word frames (exprs ps) head) (ts ++ barred ps ++ [.word head])
  | member {frames : List Frame} {ts : List Token} (h : Opened frames ts) (ps : List PrimaryTree)
    (p : PrimaryTree) : Read (.member frames (exprs ps) p.expr) (ts ++ barred ps ++ p.tokens)

variable {frames : List Frame} {ts : List Token} {reader next : Reader} {token : Token}

/-- Primaries with bars between them are what a union derives. -/
theorem exists_unionTree (ps : List PrimaryTree) (p : PrimaryTree) :
    ∃ u : UnionTree, u.tokens = barred ps ++ p.tokens ∧ u.expr = unionOf (exprs ps) p.expr := by
  obtain ⟨first, more, heq⟩ : ∃ first more, ps ++ [p] = first :: more :=
    List.exists_cons_of_ne_nil (by simp)
  refine ⟨.alternatives first more, ?_, ?_⟩
  · rw [UnionTree.tokens, barred, flatMap_append_last _ _ heq]
  · rw [UnionTree.expr]
    refine (unionOf_eq ?_).symm
    rw [exprs, List.reverse_cons, List.reverse_reverse, ← List.map_cons, ← heq]
    simp

/-- A token that starts a member keeps the invariant. -/
theorem stepType_read (h : Opened frames ts) (ps : List PrimaryTree)
    (hstep : stepType frames (exprs ps) token = .ok next) :
    Read next (ts ++ barred ps ++ [token]) := by
  unfold stepType at hstep
  split at hstep
  · obtain rfl := Except.ok.inj hstep
    exact .word h ps _
  · obtain rfl := Except.ok.inj hstep
    exact .element h ps []
  · cases hstep

/-- A token behind a complete member keeps the invariant: a bar goes on with the union, a comma
or a closing bracket ends it. -/
theorem stepMember_read (h : Opened frames ts) (ps : List PrimaryTree) (p : PrimaryTree)
    (hstep : stepMember frames (exprs ps) p.expr token = .ok next) :
    Read next (ts ++ barred ps ++ p.tokens ++ [token]) := by
  unfold stepMember at hstep
  split at hstep
  · rename_i hbar
    obtain rfl := hbar
    obtain rfl := Except.ok.inj hstep
    -- the bar: the member joins those before it
    have hread := Read.type h (ps ++ [p])
    simpa [exprs, barred] using hread
  · obtain ⟨u, htokens, hexpr⟩ := exists_unionTree ps p
    dsimp only at hstep
    -- any other mark ends the union, which is now one tree
    rw [List.append_assoc ts, ← htokens]
    rw [← hexpr] at hstep
    cases h with
    | nil => cases hstep
    | args h qs head us =>
      dsimp only at hstep
      split at hstep
      · obtain rfl := Except.ok.inj hstep
        have hread := Read.type (Opened.args h qs head (us ++ [u])) []
        simpa [exprs, barred] using hread
      -- the list of arguments is not empty, which is how an applied primary has them
      · obtain rfl := Except.ok.inj hstep
        obtain ⟨first, more, heq⟩ : ∃ first more, us ++ [u] = first :: more :=
          List.exists_cons_of_ne_nil (by simp)
        have hread := Read.member h qs (.applied head first more)
        have hus := flatMap_append_last UnionTree.tokens .comma heq
        rw [PrimaryTree.tokens, ← hus, PrimaryTree.expr, ← List.map_cons, ← heq] at hread
        simpa using hread
      · cases hstep
    | tuple h qs is star =>
      dsimp only at hstep
      have htree :
          (if star then [Token.star] else []) ++ u.tokens = (ItemTree.mk star u).tokens := by
        -- a star in front is part of the element
        rw [ItemTree.tokens]
        cases star <;> rfl
      have helement : (ItemTree.mk star u).element = ⟨u.expr, star⟩ := by
        rw [ItemTree.element]
      split at hstep
      · obtain rfl := Except.ok.inj hstep
        have hread := Read.element h qs (is ++ [.mk star u])
        simpa [← htree, helement] using hread
      · obtain rfl := Except.ok.inj hstep
        obtain ⟨first, more, heq⟩ : ∃ first more, is ++ [.mk star u] = first :: more :=
          List.exists_cons_of_ne_nil (by simp)
        have hread := Read.member h qs (.tuple false first more)
        have his := flatMap_append_last ItemTree.tokens .comma heq
        rw [PrimaryTree.tokens, ← his, PrimaryTree.expr, ← List.map_cons, ← heq] at hread
        simpa [← htree, helement] using hread
      · cases hstep

/-- One token more keeps the invariant. -/
theorem Read.step (h : Read reader ts) (hstep : reader.step token = .ok next) :
    Read next (ts ++ [token]) := by
  cases h with
  | type h ps => exact stepType_read h ps hstep
  | element h ps is =>
    by_cases hclose : token = .closeParen
    · obtain rfl := hclose
      obtain rfl := Except.ok.inj hstep
      cases is with
      -- nothing between the parentheses, or a comma before the closing one
      | nil =>
        have hread := Read.member h ps .unit
        rw [PrimaryTree.tokens, PrimaryTree.expr] at hread
        simpa using hread
      | cons first more =>
        have hread := Read.member h ps (.tuple true first more)
        rw [PrimaryTree.tokens, PrimaryTree.expr] at hread
        rw [flatMap_cons_separated]
        simpa using hread
    · by_cases hstar : token = .star
      · obtain rfl := hstar
        obtain rfl := Except.ok.inj hstep
        have hread := Read.type (Opened.tuple h ps is true) []
        simpa [exprs, barred] using hread
      -- any other token starts the union of an element
      · rw [step_element hstar hclose] at hstep
        have hread := stepType_read (Opened.tuple h ps is false) [] hstep
        simpa [barred] using hread
  | word h ps head =>
    by_cases htoken : token = .openBracket
    · obtain rfl := htoken
      obtain rfl := Except.ok.inj hstep
      have hread := Read.type (Opened.args h ps head []) []
      simpa [exprs, barred] using hread
    · rw [(Ended.word head).step htoken] at hstep
      have hread := stepMember_read h ps (.name head) (by rwa [PrimaryTree.expr])
      rwa [PrimaryTree.tokens] at hread
  | member h ps p => exact stepMember_read h ps p hstep

/-- A reader that may end has read a union. -/
theorem Read.finish (h : Read reader ts) {e : TypeExpr} (hfinish : reader.finish = .ok e) :
    ∃ u : UnionTree, u.tokens = ts ∧ u.expr = e := by
  suffices hmember : ∀ {frames ts} (ps : List PrimaryTree) (p : PrimaryTree), Opened frames ts →
      finishMember frames (exprs ps) p.expr = .ok e →
      ∃ u : UnionTree, u.tokens = ts ++ barred ps ++ p.tokens ∧ u.expr = e by
    cases h with
    | type h ps => cases hfinish
    | element h ps is => cases hfinish
    | word h ps head =>
      have hname := hmember ps (.name head) h (by rwa [PrimaryTree.expr])
      rwa [PrimaryTree.tokens] at hname
    | member h ps p => exact hmember ps p h hfinish
  intro frames ts ps p h hfinish
  cases h with
  | nil =>
    obtain ⟨u, htokens, hexpr⟩ := exists_unionTree ps p
    exact ⟨u, htokens, hexpr.trans (Except.ok.inj hfinish)⟩
  | args => cases hfinish
  | tuple => cases hfinish

/-- So what is read as an expression is derived by a union tree. -/
theorem Read.run (h : Read reader ts) {placed : List PlacedToken} {e : TypeExpr}
    (hrun : reader.run placed = .ok e) :
    ∃ u : UnionTree, u.tokens = ts ++ placed.map PlacedToken.token ∧ u.expr = e := by
  induction placed generalizing reader ts with
  | nil =>
    unfold Reader.run at hrun
    rw [List.map_nil, List.append_nil]
    cases hfinish : reader.finish with
    | error wanted =>
      rw [hfinish] at hrun
      cases hrun
    | ok e' =>
      rw [hfinish] at hrun
      obtain rfl := Except.ok.inj hrun
      exact h.finish hfinish
  | cons first rest ih =>
    unfold Reader.run at hrun
    split at hrun
    · rename_i next hnext
      rw [List.map_cons, List.append_cons]
      exact ih (h.step hnext) hrun
    · cases hrun
    · cases hrun

end Reader

/-! ## One tree at most -/

/-- The tokens do not go on with one of `marks`. -/
def Token.Avoids (marks ts : List Token) : Prop :=
  ∀ t ∈ ts.head?, t ∉ marks

theorem Token.avoids_cons {marks : List Token} {t : Token} (h : t ∉ marks) (ts : List Token) :
    Avoids marks (t :: ts) := by
  rintro _ ⟨⟩
  exact h

theorem Token.Avoids.mono {marks marks' ts : List Token} (h : Avoids marks ts)
    (hle : marks' ⊆ marks) : Avoids marks' ts :=
  fun t ht hmem => h t ht (hle hmem)

theorem Token.Avoids.ne {marks ts : List Token} (h : Avoids marks ts) {t : Token} (ht : t ∈ marks)
    (us : List Token) : ts ≠ t :: us := by
  rintro rfl
  exact h t rfl ht

section Separators

variable {α : Type} {f : α → List Token} {sep : Token} {marks : List Token} {xs ys : List α}
  {rest rest' : List Token}

/-- What a separated list starts with avoids all marks but the separator. -/
theorem Token.Avoids.flatMap_cons (h : Avoids marks rest) (hsep : sep ∉ marks) (xs : List α) :
    Avoids marks ((xs.flatMap fun x => sep :: f x) ++ rest) := by
  cases xs with
  | nil => exact h
  | cons x xs => exact avoids_cons hsep _

/-- Where each entry is found behind its separator, and no further entry follows the last, lists
of entries are found as well. -/
theorem flatMap_cons_inj (hsep : sep ∉ marks) (hrest : Token.Avoids marks rest)
    (hrest' : Token.Avoids marks rest') (hstop : ∀ x ts, rest ≠ sep :: (f x ++ ts))
    (hstop' : ∀ x ts, rest' ≠ sep :: (f x ++ ts))
    (hinj : ∀ x ∈ xs, ∀ y {ts us}, Token.Avoids marks ts → Token.Avoids marks us →
      f x ++ ts = f y ++ us → x = y ∧ ts = us)
    (h : (xs.flatMap fun x => sep :: f x) ++ rest = (ys.flatMap fun y => sep :: f y) ++ rest') :
    xs = ys ∧ rest = rest' := by
  induction xs generalizing ys with
  | nil =>
    cases ys with
    | nil => exact ⟨rfl, h⟩
    | cons y ys => exact absurd (by simpa using h) (hstop y _)
  | cons x xs ih =>
    cases ys with
    | nil => exact absurd (by simpa using h.symm) (hstop' x _)
    | cons y ys =>
      rw [List.flatMap_cons, List.flatMap_cons, List.cons_append, List.cons_append,
        List.cons_append, List.cons_append, List.append_assoc, List.append_assoc] at h
      obtain ⟨rfl, hlater⟩ := hinj x List.mem_cons_self y (hrest.flatMap_cons hsep xs)
        (hrest'.flatMap_cons hsep ys) (List.cons.inj h).2
      obtain ⟨rfl, rfl⟩ := ih (fun z hz => hinj z (List.mem_cons_of_mem _ hz)) hlater
      exact ⟨rfl, rfl⟩

end Separators

/-- No union starts like a rest element or like the end of a tuple. -/
theorem UnionTree.tokens_append_ne {token : Token} (h : token = .star ∨ token = .closeParen)
    (u : UnionTree) (ts us : List Token) : u.tokens ++ ts ≠ token :: us := by
  obtain ⟨first, rest, heq, hstar, hclose⟩ := u.exists_tokens_eq_cons
  rw [heq]
  intro heq'
  obtain ⟨rfl, -⟩ := List.cons.inj heq'
  exact h.elim hstar hclose

/-- No tuple element starts like the end of a tuple. -/
theorem ItemTree.tokens_append_ne (i : ItemTree) (ts us : List Token) :
    i.tokens ++ ts ≠ .closeParen :: us := by
  obtain ⟨first, rest, heq, hclose⟩ := i.exists_tokens_eq_cons
  rw [heq]
  intro heq'
  exact hclose (List.cons.inj heq').1

/-- The end of a tuple is not the start of one more element. -/
theorem Token.tupleEnd_stops (comma : Bool) (ts : List Token) (i : ItemTree) (us : List Token) :
    Token.tupleEnd comma ++ ts ≠ .comma :: (i.tokens ++ us) := by
  cases comma with
  | true =>
    intro h
    exact i.tokens_append_ne us ts (List.cons.inj h).2.symm
  | false =>
    intro h
    cases (List.cons.inj h).1

theorem Token.tupleEnd_avoids (comma : Bool) (ts : List Token) :
    Token.Avoids [.openBracket, .bar] (Token.tupleEnd comma ++ ts) := by
  cases comma <;> exact Token.avoids_cons (by simp) _

theorem Token.tupleEnd_inj {comma comma' : Bool} {ts us : List Token}
    (h : tupleEnd comma ++ ts = tupleEnd comma' ++ us) : comma = comma' ∧ ts = us := by
  cases comma <;> cases comma' <;> simp_all

mutual

/-- Two unions that start the same list of tokens are equal, if neither rest goes on with
arguments or with one more member. -/
theorem UnionTree.eq_of_append : ∀ (u v : UnionTree) {ts us : List Token},
    Token.Avoids [.openBracket, .bar] ts → Token.Avoids [.openBracket, .bar] us →
    u.tokens ++ ts = v.tokens ++ us → u = v ∧ ts = us
  | .alternatives first more, .alternatives first' more', ts, us, hts, hus, h => by
    have hmore : ∀ p ∈ more, ∀ q {ts us}, Token.Avoids [.openBracket] ts →
        Token.Avoids [.openBracket] us → p.tokens ++ ts = q.tokens ++ us → p = q ∧ ts = us :=
      fun p _ => p.eq_of_append
    have hts' : Token.Avoids [.openBracket] ts := hts.mono (by simp)
    have hus' : Token.Avoids [.openBracket] us := hus.mono (by simp)
    rw [UnionTree.tokens, UnionTree.tokens, List.append_assoc, List.append_assoc] at h
    obtain ⟨rfl, hlater⟩ := first.eq_of_append first' (hts'.flatMap_cons (by simp) more)
      (hus'.flatMap_cons (by simp) more') h
    obtain ⟨rfl, rfl⟩ := flatMap_cons_inj (by simp) hts' hus' (fun _ _ => hts.ne (by simp) _)
      (fun _ _ => hus.ne (by simp) _) hmore hlater
    exact ⟨rfl, rfl⟩

/-- Two primaries that start the same list of tokens are equal, if neither rest goes on with
arguments. -/
theorem PrimaryTree.eq_of_append : ∀ (p q : PrimaryTree) {ts us : List Token},
    Token.Avoids [.openBracket] ts → Token.Avoids [.openBracket] us →
    p.tokens ++ ts = q.tokens ++ us → p = q ∧ ts = us
  | .name head, q, ts, us, hts, hus, h => by
    rw [PrimaryTree.tokens] at h
    cases q <;> rw [PrimaryTree.tokens] at h
    case name head' =>
      obtain ⟨rfl, rfl⟩ : head = head' ∧ ts = us := by simpa using h
      exact ⟨rfl, rfl⟩
    -- arguments would start what follows a name, which avoids that mark
    case applied head' first' more' =>
      exact absurd (List.cons.inj h).2 (hts.ne (by simp) _)
    all_goals cases (List.cons.inj h).1
  | .applied head first more, q, ts, us, hts, hus, h => by
    have hmore : ∀ u ∈ more, ∀ v {ts us}, Token.Avoids [.openBracket, .bar] ts →
        Token.Avoids [.openBracket, .bar] us → u.tokens ++ ts = v.tokens ++ us → u = v ∧ ts = us :=
      fun u _ => u.eq_of_append
    rw [PrimaryTree.tokens] at h
    cases q <;> rw [PrimaryTree.tokens] at h
    case name head' =>
      exact absurd (List.cons.inj h).2.symm (hus.ne (by simp) _)
    case applied head' first' more' =>
      simp only [List.cons_append, List.nil_append, List.append_assoc] at h
      obtain ⟨hhead, hargs⟩ := List.cons.inj h
      obtain rfl := Token.word.inj hhead
      -- the separator and the end of the list are no part of an argument
      have hclose : ∀ ts, Token.Avoids [.openBracket, .bar] (.closeBracket :: ts) :=
        Token.avoids_cons (by simp)
      obtain ⟨rfl, hlater⟩ := first.eq_of_append first' ((hclose ts).flatMap_cons (by simp) more)
        ((hclose us).flatMap_cons (by simp) more') (List.cons.inj hargs).2
      obtain ⟨rfl, hend⟩ := flatMap_cons_inj (by simp) (hclose ts) (hclose us) (by simp) (by simp)
        hmore hlater
      obtain rfl := (List.cons.inj hend).2
      exact ⟨rfl, rfl⟩
    all_goals cases (List.cons.inj h).1
  | .unit, q, ts, us, hts, hus, h => by
    rw [PrimaryTree.tokens] at h
    cases q <;> rw [PrimaryTree.tokens] at h
    case unit => exact ⟨rfl, by simpa using h⟩
    case tuple comma' first' more' =>
      simp only [List.cons_append, List.nil_append, List.append_assoc] at h
      -- an empty tuple closes where the other one has its first element
      exact absurd (List.cons.inj h).2.symm (first'.tokens_append_ne _ _)
    all_goals cases (List.cons.inj h).1
  | .tuple comma first more, q, ts, us, hts, hus, h => by
    have hmore : ∀ i ∈ more, ∀ j {ts us}, Token.Avoids [.openBracket, .bar] ts →
        Token.Avoids [.openBracket, .bar] us → i.tokens ++ ts = j.tokens ++ us → i = j ∧ ts = us :=
      fun i _ => i.eq_of_append
    rw [PrimaryTree.tokens] at h
    cases q <;> rw [PrimaryTree.tokens] at h
    case unit =>
      simp only [List.cons_append, List.nil_append, List.append_assoc] at h
      exact absurd (List.cons.inj h).2 (first.tokens_append_ne _ _)
    case tuple comma' first' more' =>
      simp only [List.cons_append, List.append_assoc] at h
      -- so are the comma and the end of a tuple, with or without a last comma before it
      have hts' := Token.tupleEnd_avoids comma ts
      have hus' := Token.tupleEnd_avoids comma' us
      obtain ⟨rfl, hlater⟩ := first.eq_of_append first' (hts'.flatMap_cons (by simp) more)
        (hus'.flatMap_cons (by simp) more') (List.cons.inj h).2
      obtain ⟨rfl, hend⟩ := flatMap_cons_inj (by simp) hts' hus' (Token.tupleEnd_stops comma ts)
        (Token.tupleEnd_stops comma' us) hmore hlater
      obtain ⟨rfl, rfl⟩ := Token.tupleEnd_inj hend
      exact ⟨rfl, rfl⟩
    all_goals cases (List.cons.inj h).1

/-- Two tuple elements that start the same list of tokens are equal. -/
theorem ItemTree.eq_of_append : ∀ (i j : ItemTree) {ts us : List Token},
    Token.Avoids [.openBracket, .bar] ts → Token.Avoids [.openBracket, .bar] us →
    i.tokens ++ ts = j.tokens ++ us → i = j ∧ ts = us
  | .mk star u, .mk star' v, ts, us, hts, hus, h => by
    rw [ItemTree.tokens, ItemTree.tokens] at h
    cases star <;> cases star'
    case false.false =>
      obtain ⟨rfl, rfl⟩ := u.eq_of_append v hts hus h
      exact ⟨rfl, rfl⟩
    case false.true => exact absurd h (u.tokens_append_ne (.inl rfl) _ _)
    case true.false => exact absurd h.symm (v.tokens_append_ne (.inl rfl) _ _)
    case true.true =>
      obtain ⟨rfl, rfl⟩ := u.eq_of_append v hts hus (List.cons.inj h).2
      exact ⟨rfl, rfl⟩

end

/-! ## Texts -/

/-- A tree for a text: the text splits into the tokens that the tree derives. -/
structure Derivation (source : String) where
  tree : UnionTree
  splits : Token.Splits source.toList tree.tokens

namespace Derivation

variable {source : String}

/-- There is one derivation at most. -/
theorem eq (d d' : Derivation source) : d = d' := by
  have htokens := d.splits.unique d'.splits
  have hnone : Token.Avoids [.openBracket, .bar] [] := by simp [Token.Avoids]
  obtain ⟨htree, -⟩ := d.tree.eq_of_append d'.tree hnone hnone (by rw [htokens])
  cases d
  cases d'
  congr

end Derivation

namespace TypeExpr

variable {source : String} {e : TypeExpr}

/-- What a text derives is what is read. -/
theorem parse_of_derivation (d : Derivation source) : parse source = .ok d.tree.expr := by
  obtain ⟨placed, hscan, hplaced⟩ := d.splits.lexes 0
  obtain ⟨reader, hsteps, members, last, hended, hunion⟩ := d.tree.taken []
  rw [← hplaced] at hsteps
  unfold parse Token.ofString
  rw [hscan]
  show Reader.start.run placed = _
  rw [Reader.start, Reader.run_of_steps hsteps, hended.finish, ← hunion]
  rfl

/-- What is read is derived by the text. -/
theorem exists_derivation_of_parse (h : parse source = .ok e) :
    ∃ d : Derivation source, d.tree.expr = e := by
  unfold parse Token.ofString at h
  cases hscan : Token.scan 0 none source.toList with
  | error cause =>
    rw [hscan] at h
    cases h
  | ok placed =>
    rw [hscan] at h
    have hstart : Reader.Read .start [] := .type .nil []
    obtain ⟨u, htokens, hexpr⟩ := hstart.run h
    exact ⟨⟨u, htokens ▸ Token.splits_of_scan hscan⟩, hexpr⟩

/-- A text is read as an expression just if it splits into the tokens of a tree of the grammar
that stands for the expression; and a text has one such tree at most. -/
theorem parse_iff (source : String) :
    (∀ e, parse source = .ok e ↔ ∃ d : Derivation source, d.tree.expr = e) ∧
      Subsingleton (Derivation source) := by
  refine ⟨fun e => ⟨exists_derivation_of_parse, ?_⟩, ⟨Derivation.eq⟩⟩
  rintro ⟨d, rfl⟩
  exact parse_of_derivation d

end TypeExpr

end Supertypes
