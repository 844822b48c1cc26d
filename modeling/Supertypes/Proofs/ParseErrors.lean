import Supertypes.Proofs.Grammar

/-!
# The place of a reading error

- `Token.Complete` and `Token.Viable`: the tokens of an expression, and those with which one
  starts.
- `Reader.Accepts`: what a reader can take in up to the end of an expression. From every state
  there is something, `Reader.completion`; and from the start it is what the trees of the grammar
  derive.
- `Token.StuckAt` and `Token.StopsAt`: where a text cannot be split any further, and where it
  goes on with a token that no expression has there.
- `TypeExpr.parse_cases`: the ways in which reading can end. `TypeExpr.parse_error_iff`: each of
  the four errors is found just where it belongs.
-/

namespace Supertypes

namespace Token

/-! ## Tokens with which expressions start -/

/-- All the tokens of some expression. -/
def Complete (ts : List Token) : Prop :=
  ∃ (source : String) (d : Derivation source), d.tree.tokens = ts

/-- The first tokens of some expression. -/
def Viable (ts : List Token) : Prop :=
  ∃ us, Complete (ts ++ us)

/-- Whatever words are in it is a word that a text can have. -/
def Writable (ts : List Token) : Prop :=
  ∀ s, .word s ∈ ts → IsWord s

variable {ts us : List Token}

theorem writable_append : Writable (ts ++ us) ↔ Writable ts ∧ Writable us := by
  simp only [Writable, List.mem_append, or_imp, forall_and]

/-- What a text splits into can be written. -/
theorem Splits.writable {cs : List Char} (h : Splits cs ts) : Writable ts :=
  fun _ => h.isWord

theorem Complete.writable (h : Complete ts) : Writable ts := by
  obtain ⟨source, d, rfl⟩ := h
  exact d.splits.writable

theorem Viable.writable (h : Viable ts) : Writable ts := by
  obtain ⟨us, h⟩ := h
  exact (writable_append.mp h.writable).1

/-- Tokens that can be written are those of a text, which need not be an expression. -/
theorem Writable.exists_splits (h : Writable ts) : ∃ cs, Splits cs ts := by
  induction ts with
  | nil => exact ⟨[], .nil⟩
  | cons token ts ih =>
    obtain ⟨cs, hcs⟩ := ih fun s hs => h s (List.mem_cons_of_mem _ hs)
    cases token with
    | word s =>
      -- a blank keeps the word from going on into what follows
      obtain ⟨c, letters, heq, -, -, hc, hletters⟩ := h s List.mem_cons_self
      have hend : Boundary (' ' :: cs) := by
        rintro _ ⟨⟩
        decide
      have hword := Splits.word hc hletters hend (.blank (by decide) hcs)
      rw [← heq, String.ofList_toList] at hword
      exact ⟨_, hword⟩
    | openBracket => exact ⟨'[' :: cs, .mark rfl hcs⟩
    | closeBracket => exact ⟨']' :: cs, .mark rfl hcs⟩
    | openParen => exact ⟨'(' :: cs, .mark rfl hcs⟩
    | closeParen => exact ⟨')' :: cs, .mark rfl hcs⟩
    | comma => exact ⟨',' :: cs, .mark rfl hcs⟩
    | bar => exact ⟨'|' :: cs, .mark rfl hcs⟩
    | star => exact ⟨'*' :: cs, .mark rfl hcs⟩

/-- A complete list of tokens is one that can be written and that a tree derives. -/
theorem complete_iff : Complete ts ↔ Writable ts ∧ ∃ u : UnionTree, u.tokens = ts := by
  constructor
  · intro h
    obtain ⟨source, d, htokens⟩ := id h
    exact ⟨h.writable, d.tree, htokens⟩
  · rintro ⟨hwritable, u, rfl⟩
    obtain ⟨cs, hcs⟩ := hwritable.exists_splits
    exact ⟨String.ofList cs, ⟨u, by rwa [String.toList_ofList]⟩, rfl⟩

end Token

/-! ## Ending an expression -/

/-- The mark that closes a bracket. -/
def Frame.closing : Frame → Token
  | .args .. => .closeBracket
  | .tuple .. => .closeParen

namespace Reader

variable {reader next : Reader} {ts us : List Token} {token : Token}

/-- Taking any number of tokens keeps the invariant of the reader. -/
theorem Read.steps (h : Read reader ts) (hsteps : reader.steps us = .ok next) :
    Read next (ts ++ us) := by
  induction us generalizing reader ts with
  | nil =>
    obtain rfl := Except.ok.inj hsteps
    rwa [List.append_nil]
  | cons token us ih =>
    rw [steps_cons] at hsteps
    cases hstep : reader.step token with
    | error refusal =>
      rw [hstep] at hsteps
      cases hsteps
    | ok reader' =>
      rw [hstep] at hsteps
      rw [List.append_cons]
      exact ih (h.step hstep) hsteps

/-- The reader takes the tokens in, and the text may end after them. -/
def Accepts (reader : Reader) (ts : List Token) : Prop :=
  ∃ next e, reader.steps ts = .ok next ∧ next.finish = .ok e

/-- What is accepted after some tokens is accepted by the reader that has taken them. -/
theorem accepts_append (h : reader.steps ts = .ok next) :
    reader.Accepts (ts ++ us) ↔ next.Accepts us := by
  unfold Accepts
  rw [steps_append, h]
  rfl

theorem accepts_cons (h : reader.step token = .ok next) :
    reader.Accepts (token :: us) ↔ next.Accepts us := by
  unfold Accepts
  rw [steps_cons_of_step h]

/-- Nothing is needed by a reader that can end. -/
theorem accepts_nil : reader.Accepts [] ↔ ∃ e, reader.finish = .ok e := by
  constructor
  · rintro ⟨next, e, hsteps, hfinish⟩
    obtain rfl := Except.ok.inj hsteps
    exact ⟨e, hfinish⟩
  · rintro ⟨e, hfinish⟩
    exact ⟨reader, e, rfl, hfinish⟩

/-- From the start the reader accepts what the trees of the grammar derive, and nothing else. -/
theorem accepts_start_iff : start.Accepts ts ↔ ∃ u : UnionTree, u.tokens = ts := by
  constructor
  · rintro ⟨next, e, hsteps, hfinish⟩
    have hstart : Read .start [] := .type .nil []
    obtain ⟨u, htokens, -⟩ := (hstart.steps hsteps).finish hfinish
    exact ⟨u, htokens⟩
  · rintro ⟨u, rfl⟩
    obtain ⟨next, hsteps, members, last, hended, -⟩ := u.taken []
    exact ⟨next, _, hsteps, hended.finish⟩

/-- Some tokens that end the expression which the reader is in the midst of: the rest of a type
if one has to follow, and the marks that close the open brackets. -/
def completion : Reader → List Token
  | .type frames _ => .word "_" :: frames.map Frame.closing
  | .element frames _ _ => .closeParen :: frames.map Frame.closing
  | .word frames _ _ | .member frames _ _ => frames.map Frame.closing

/-- After a member, what is needed are the marks that close the brackets. -/
theorem Ended.accepts_closing {frames : List Frame} {members : List TypeExpr} {last : TypeExpr}
    (h : Ended frames members last reader) : reader.Accepts (frames.map Frame.closing) := by
  induction frames generalizing reader members last with
  | nil => exact accepts_nil.mpr ⟨_, h.finish⟩
  | cons frame frames ih =>
    cases frame with
    | args before head done =>
      obtain ⟨-, hclose⟩ := Whole.step_args ⟨members, last, h, rfl⟩
      exact (accepts_cons hclose).mpr (ih (.member _))
    | tuple before done isRest =>
      obtain ⟨-, hclose⟩ := Whole.step_tuple ⟨members, last, h, rfl⟩
      exact (accepts_cons hclose).mpr (ih (.member _))

/-- A reader is never stuck: it has taken in nothing but what an expression starts with. -/
theorem accepts_completion (reader : Reader) : reader.Accepts reader.completion := by
  cases reader with
  | type frames members => exact (accepts_cons rfl).mpr (Ended.word "_").accepts_closing
  | element frames before done => exact (accepts_cons rfl).mpr (Ended.member _).accepts_closing
  | word frames members head => exact (Ended.word head).accepts_closing
  | member frames members last => exact (Ended.member last).accepts_closing

/-- The tokens that bring a reader to an end can be written. -/
theorem writable_completion (reader : Reader) : Token.Writable reader.completion := by
  have hword : Token.IsWord "_" := ⟨'_', [], rfl, by decide, by decide, by decide, by simp⟩
  have hclosing : ∀ frames : List Frame, Token.Writable (frames.map Frame.closing) := by
    intro frames s hs
    obtain ⟨frame, -, hframe⟩ := List.mem_map.mp hs
    cases frame <;> cases hframe
  intro s hs
  cases reader with
  | type frames members =>
    obtain heq | hs := List.mem_cons.mp hs
    · exact Token.word.inj heq ▸ hword
    · exact hclosing frames s hs
  | element frames before done =>
    obtain heq | hs := List.mem_cons.mp hs
    · cases heq
    · exact hclosing frames s hs
  | word frames members head => exact hclosing frames s hs
  | member frames members last => exact hclosing frames s hs

/-! ## Refusals -/

/-- The error for a token that is refused. -/
def Refusal.errorAt (offset : Nat) : Refusal → ExprError
  | .wanted what => .expected what offset
  | .trailing => .trailingInput offset

/-- The first token that is refused decides the error. -/
theorem run_cons_of_refused {refusal : Refusal} (h : reader.step token = .error refusal)
    (offset : Nat) (after : List PlacedToken) :
    reader.run (⟨token, offset⟩ :: after) = .error (refusal.errorAt offset) := by
  rw [run, h]
  cases refusal <;> rfl

/-- Tokens are taken in to the last, or as far as one that is refused. -/
theorem steps_or_refused (reader : Reader) (placed : List PlacedToken) :
    (∃ next, reader.steps (placed.map PlacedToken.token) = .ok next) ∨
      ∃ before token offset after next refusal, placed = before ++ ⟨token, offset⟩ :: after ∧
        reader.steps (before.map PlacedToken.token) = .ok next ∧
        next.step token = .error refusal := by
  induction placed generalizing reader with
  | nil => exact .inl ⟨reader, rfl⟩
  | cons first rest ih =>
    cases hstep : reader.step first.token with
    | error refusal =>
      exact .inr ⟨[], first.token, first.offset, rest, reader, refusal, rfl, rfl, hstep⟩
    | ok reader' =>
      have hsteps : ∀ ts, reader.steps (first.token :: ts) = reader'.steps ts :=
        steps_cons_of_step hstep
      obtain ⟨next, h⟩ | ⟨before, token, offset, after, next, refusal, rfl, h, hrefused⟩ :=
        ih reader'
      · exact .inl ⟨next, (hsteps _).trans h⟩
      · exact .inr ⟨first :: before, token, offset, after, next, refusal, rfl,
          (hsteps _).trans h, hrefused⟩

/-- Where a type has to follow, nothing else is wanted. -/
theorem stepType_error {frames : List Frame} {members : List TypeExpr} {refusal : Refusal}
    (h : stepType frames members token = .error refusal) : refusal = .wanted .type := by
  unfold stepType at h
  split at h
  · cases h
  · cases h
  · exact (Except.error.inj h).symm

/-- After a member, a token is surplus just if the expression could have ended there. -/
theorem stepMember_error {frames : List Frame} {members : List TypeExpr} {last : TypeExpr}
    {refusal : Refusal} (h : stepMember frames members last token = .error refusal) :
    refusal = .trailing ↔ ∃ e, finishMember frames members last = .ok e := by
  unfold stepMember at h
  split at h
  · cases h
  · cases frames with
    | nil =>
      obtain rfl := Except.error.inj h
      exact ⟨fun _ => ⟨_, rfl⟩, fun _ => rfl⟩
    | cons frame frames =>
      cases frame <;> dsimp only at h <;> split at h <;> cases h <;>
        exact ⟨by simp, by rintro ⟨e, ⟨⟩⟩⟩

/-- A token is refused as trailing just where the text might have ended. -/
theorem step_error {refusal : Refusal} (h : reader.step token = .error refusal) :
    refusal = .trailing ↔ ∃ e, reader.finish = .ok e := by
  have htype : refusal = .wanted .type → reader.finish = .error .type →
      (refusal = .trailing ↔ ∃ e, reader.finish = .ok e) := by
    rintro rfl hfinish
    simp [hfinish]
  cases reader with
  | type frames members => exact htype (stepType_error h) rfl
  | element frames before done =>
    refine htype ?_ rfl
    have hstar : token ≠ .star := by
      rintro rfl
      cases h
    have hclose : token ≠ .closeParen := by
      rintro rfl
      cases h
    rw [step_element hstar hclose] at h
    exact stepType_error h
  | word frames members head =>
    have htoken : token ≠ .openBracket := by
      rintro rfl
      cases h
    rw [(Ended.word head).step htoken] at h
    exact stepMember_error h
  | member frames members last => exact stepMember_error h

end Reader

/-! ## Where a text stops being an expression -/

namespace Token

open Reader

variable {ts : List Token}

/-- The tokens of an expression are those that the reader accepts. -/
theorem complete_iff_accepts (h : Writable ts) : Complete ts ↔ start.Accepts ts := by
  rw [complete_iff, accepts_start_iff]
  exact ⟨And.right, fun htree => ⟨h, htree⟩⟩

/-- An expression starts with whatever the reader takes in. -/
theorem viable_iff (h : Writable ts) : Viable ts ↔ ∃ next, start.steps ts = .ok next := by
  constructor
  · rintro ⟨us, hus⟩
    obtain ⟨-, u, htokens⟩ := complete_iff.mp hus
    obtain ⟨last, e, hsteps, -⟩ := accepts_start_iff.mpr ⟨u, htokens⟩
    rw [steps_append] at hsteps
    cases hnext : start.steps ts with
    | error refusal =>
      rw [hnext] at hsteps
      cases hsteps
    | ok next => exact ⟨next, rfl⟩
  · rintro ⟨next, hnext⟩
    have hall : Writable (ts ++ next.completion) :=
      writable_append.mpr ⟨h, writable_completion next⟩
    refine ⟨next.completion, (complete_iff_accepts hall).mpr ?_⟩
    exact (accepts_append hnext).mpr next.accepts_completion

/-- The text splits as far as a character that fits nowhere, which is `c` at `offset`. -/
def StuckAt (source : String) (c : Char) (offset : Nat) : Prop :=
  ∃ rest placed, SplitsUpTo offset (c :: rest) 0 source.toList placed ∧ FitsNowhere c

/-- The text splits into `before`, a token at `offset` and more tokens, and with this token it
stops being what an expression starts with. -/
def StopsAt (source : String) (before : List Token) (offset : Nat) : Prop :=
  ∃ last placed token after,
    SplitsUpTo last [] 0 source.toList (placed ++ ⟨token, offset⟩ :: after) ∧
    placed.map PlacedToken.token = before ∧ Viable before ∧ ¬ Viable (before ++ [token])

end Token

namespace TypeExpr

open Token Reader

variable {source : String} {before ts : List Token} {c : Char} {offset last : Nat}
  {placed : List PlacedToken}

/-- Reading a text is running the reader over its tokens. -/
theorem parse_of_splitsUpTo (h : SplitsUpTo last [] 0 source.toList placed) :
    parse source = start.run placed := by
  unfold parse Token.ofString
  rw [scan_eq_ok_iff.mpr ⟨last, h⟩]
  rfl

/-- Where the text cannot be split, the character is reported. -/
theorem parse_of_stuckAt (h : StuckAt source c offset) :
    parse source = .error (.unexpectedChar c offset) := by
  obtain ⟨rest, placed, hsplits, hc⟩ := h
  unfold parse Token.ofString
  rw [scan_eq_error_iff.mpr ⟨c, offset, rest, placed, hsplits, hc, rfl⟩]
  rfl

/-- Where the text goes on with a token that no expression has there, the token is reported: as
trailing input if an expression ends before it, as something else than is wanted if not. -/
theorem parse_of_stopsAt (h : StopsAt source before offset) :
    ∃ refusal : Refusal, parse source = .error (refusal.errorAt offset) ∧
      (refusal = .trailing ↔ Complete before) := by
  obtain ⟨last, placed, token, after, hsplits, rfl, hviable, hstops⟩ := h
  have hwritable : Writable (placed.map PlacedToken.token ++ [token]) := by
    have hall := hsplits.splits.writable
    rw [List.map_append, List.map_cons, List.append_cons] at hall
    exact (writable_append.mp hall).1
  obtain ⟨next, hnext⟩ := (viable_iff hviable.writable).mp hviable
  cases hstep : next.step token with
  | ok next' =>
    have hsteps := steps_trans hnext (steps_cons_of_step hstep [])
    exact absurd ((viable_iff hwritable).mpr ⟨next', hsteps⟩) hstops
  | error refusal =>
    refine ⟨refusal, ?_, ?_⟩
    · rw [parse_of_splitsUpTo hsplits, run_append hnext, run_cons_of_refused hstep]
    · rw [step_error hstep, complete_iff_accepts hviable.writable, ← accepts_nil,
        ← accepts_append hnext, List.append_nil]

/-- If an expression starts with all tokens of the text, then it is one, or the end of the text
is reported. -/
theorem parse_of_viable (h : SplitsUpTo last [] 0 source.toList placed)
    (hviable : Viable (placed.map PlacedToken.token)) :
    (∃ what, parse source = .error (.unexpectedEnd what)) ∧
        ¬ Complete (placed.map PlacedToken.token) ∨
      (∃ e, parse source = .ok e) ∧ Complete (placed.map PlacedToken.token) := by
  obtain ⟨next, hnext⟩ := (viable_iff hviable.writable).mp hviable
  rw [complete_iff_accepts hviable.writable, ← List.append_nil (placed.map _),
    accepts_append hnext, accepts_nil, parse_of_splitsUpTo h, run_of_steps hnext]
  cases next.finish with
  | error what => exact .inl ⟨⟨what, rfl⟩, by simp⟩
  | ok e => exact .inr ⟨⟨e, rfl⟩, e, rfl⟩

/-- A text gets stuck at a character, stops being an expression at a token, or is as a whole what
an expression starts with. -/
theorem stuck_or_stops_or_viable (source : String) :
    (∃ c offset, StuckAt source c offset) ∨ (∃ before offset, StopsAt source before offset) ∨
      ∃ last placed, SplitsUpTo last [] 0 source.toList placed ∧
        Viable (placed.map PlacedToken.token) := by
  obtain ⟨last, placed, hsplits⟩ | ⟨last, c, rest, placed, hsplits, hc⟩ :=
    exists_splitsUpTo 0 source.toList
  · refine .inr ?_
    have hwritable := hsplits.splits.writable
    obtain ⟨next, hnext⟩ | ⟨before, token, offset, after, next, refusal, rfl, hnext, hrefused⟩ :=
      steps_or_refused start placed
    · exact .inr ⟨last, placed, hsplits, (viable_iff hwritable).mpr ⟨next, hnext⟩⟩
    · rw [List.map_append, List.map_cons, List.append_cons] at hwritable
      obtain ⟨hwritable, -⟩ := writable_append.mp hwritable
      have hviable := (viable_iff (writable_append.mp hwritable).1).mpr ⟨next, hnext⟩
      refine .inl ⟨_, offset, last, before, token, after, hsplits, rfl, hviable, fun hmore => ?_⟩
      obtain ⟨last, hlast⟩ := (viable_iff hwritable).mp hmore
      rw [steps_append, hnext] at hlast
      have hstep : next.steps [token] = .error refusal := by rw [steps_cons, hrefused]; rfl
      exact absurd (hstep.symm.trans hlast) (by simp)
  · exact .inl ⟨c, last, rest, placed, hsplits, hc⟩

/-- How reading can end, and what is known of the text then. -/
theorem parse_cases (source : String) :
    (∃ c offset, StuckAt source c offset ∧ parse source = .error (.unexpectedChar c offset)) ∨
      (∃ before offset what, StopsAt source before offset ∧ ¬ Complete before ∧
        parse source = .error (.expected what offset)) ∨
      (∃ before offset, StopsAt source before offset ∧ Complete before ∧
        parse source = .error (.trailingInput offset)) ∨
      (∃ ts what, Splits source.toList ts ∧ Viable ts ∧ ¬ Complete ts ∧
        parse source = .error (.unexpectedEnd what)) ∨
      ∃ e, parse source = .ok e := by
  obtain ⟨c, offset, hstuck⟩ | ⟨before, offset, hstops⟩ | ⟨last, placed, hsplits, hviable⟩ :=
    stuck_or_stops_or_viable source
  · exact .inl ⟨c, offset, hstuck, parse_of_stuckAt hstuck⟩
  · obtain ⟨refusal, hparse, htrailing⟩ := parse_of_stopsAt hstops
    cases refusal with
    | wanted what =>
      have hnot : ¬ Complete before := fun h => by cases htrailing.mpr h
      exact .inr (.inl ⟨before, offset, what, hstops, hnot, hparse⟩)
    | trailing => exact .inr (.inr (.inl ⟨before, offset, hstops, htrailing.mp rfl, hparse⟩))
  · obtain ⟨⟨what, hparse⟩, hnot⟩ | ⟨hparse, -⟩ := parse_of_viable hsplits hviable
    · exact .inr (.inr (.inr (.inl ⟨_, what, hsplits.splits, hviable, hnot, hparse⟩)))
    · exact .inr (.inr (.inr (.inr hparse)))

/-- The error of a character is found just where the text is stuck. -/
theorem unexpectedChar_iff :
    parse source = .error (.unexpectedChar c offset) ↔ StuckAt source c offset := by
  refine ⟨fun h => ?_, parse_of_stuckAt⟩
  obtain ⟨_, _, hstuck, heq⟩ | ⟨_, _, _, -, -, heq⟩ | ⟨_, _, -, -, heq⟩ | ⟨_, _, -, -, -, heq⟩ |
    ⟨_, heq⟩ := parse_cases source <;> cases h.symm.trans heq
  exact hstuck

/-- Something else is wanted just where the text stops in the midst of an expression. -/
theorem expected_iff : (∃ what, parse source = .error (.expected what offset)) ↔
    ∃ before, StopsAt source before offset ∧ ¬ Complete before := by
  constructor
  · rintro ⟨what, h⟩
    obtain ⟨_, _, -, heq⟩ | ⟨before, _, _, hstops, hnot, heq⟩ | ⟨_, _, -, -, heq⟩ |
      ⟨_, _, -, -, -, heq⟩ | ⟨_, heq⟩ := parse_cases source <;> cases h.symm.trans heq
    exact ⟨before, hstops, hnot⟩
  · rintro ⟨before, hstops, hnot⟩
    obtain ⟨refusal, hparse, htrailing⟩ := parse_of_stopsAt hstops
    cases refusal with
    | wanted what => exact ⟨what, hparse⟩
    | trailing => exact absurd (htrailing.mp rfl) hnot

/-- There is trailing input just where the text stops behind an expression. -/
theorem trailingInput_iff : parse source = .error (.trailingInput offset) ↔
    ∃ before, StopsAt source before offset ∧ Complete before := by
  constructor
  · intro h
    obtain ⟨_, _, -, heq⟩ | ⟨_, _, _, -, -, heq⟩ | ⟨before, _, hstops, hcomplete, heq⟩ |
      ⟨_, _, -, -, -, heq⟩ | ⟨_, heq⟩ := parse_cases source <;> cases h.symm.trans heq
    exact ⟨before, hstops, hcomplete⟩
  · rintro ⟨before, hstops, hcomplete⟩
    obtain ⟨refusal, hparse, htrailing⟩ := parse_of_stopsAt hstops
    obtain rfl := htrailing.mpr hcomplete
    exact hparse

/-- The end comes too early just if the text is a start of an expression and not a whole one. -/
theorem unexpectedEnd_iff : (∃ what, parse source = .error (.unexpectedEnd what)) ↔
    ∃ ts, Splits source.toList ts ∧ Viable ts ∧ ¬ Complete ts := by
  constructor
  · rintro ⟨what, h⟩
    obtain ⟨_, _, -, heq⟩ | ⟨_, _, _, -, -, heq⟩ | ⟨_, _, -, -, heq⟩ |
      ⟨ts, _, hsplits, hviable, hnot, heq⟩ | ⟨_, heq⟩ := parse_cases source <;>
      cases h.symm.trans heq
    exact ⟨ts, hsplits, hviable, hnot⟩
  · rintro ⟨ts, hsplits, hviable, hnot⟩
    obtain ⟨placed, hscan, rfl⟩ := hsplits.lexes 0
    obtain ⟨last, hplaced⟩ := scan_eq_ok_iff.mp hscan
    obtain ⟨hparse, -⟩ | ⟨-, hcomplete⟩ := parse_of_viable hplaced hviable
    · exact hparse
    · exact absurd hcomplete hnot

/-- Reading fails at a character just if it is the first that fits into no token. Otherwise it
fails at a token just if the tokens before it are what some expression starts with and those up
to it are not, as trailing input if the tokens before it are an expression and as unexpected if
not. At the end it fails just if all tokens are what some expression starts with, and not one
themselves. -/
theorem parse_error_iff (source : String) :
    (∀ c offset, parse source = .error (.unexpectedChar c offset) ↔ StuckAt source c offset) ∧
      (∀ offset, (∃ what, parse source = .error (.expected what offset)) ↔
        ∃ before, StopsAt source before offset ∧ ¬ Complete before) ∧
      (∀ offset, parse source = .error (.trailingInput offset) ↔
        ∃ before, StopsAt source before offset ∧ Complete before) ∧
      ((∃ what, parse source = .error (.unexpectedEnd what)) ↔
        ∃ ts, Splits source.toList ts ∧ Viable ts ∧ ¬ Complete ts) :=
  ⟨fun _ _ => unexpectedChar_iff, fun _ => expected_iff, fun _ => trailingInput_iff,
    unexpectedEnd_iff⟩

end TypeExpr

end Supertypes
