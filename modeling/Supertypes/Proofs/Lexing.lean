import Mathlib.Data.List.Forall2
import Mathlib.Data.List.TakeWhile
import Supertypes.Expr.Token

/-!
# Cutting texts into tokens

- `Token.IsWord`: a text that is cut out as one word.
- `Token.Lexes`: the characters are cut into these tokens. `Token.Lexes.blank`,
  `Token.Lexes.mark` and `Token.Lexes.word` put one token or blank in front.
- `Token.Splits`: the same without the scanner, by what each character can do.
  `Token.Splits.lexes` and `Token.splits_of_scan` say that the scanner finds just this,
  `Token.Splits.unique` that there is no second way, and `Token.Splits.isWord` that all words
  that are found are words.
- `Token.SplitsUpTo`: the same with the places of the tokens, and as far as some character only.
  `Token.scan_eq_ok_iff` and `Token.scan_eq_error_iff` say when the scanner gets to the end and
  where it stops otherwise.
- `Token.Spells` and `Token.Separates` say the same of a text in the midst of others, where a
  word has to end at a boundary. `Token.Spells.append`, `Token.Separates.enclose` and
  `Token.Separates.intercalate` put texts together.
-/

namespace Supertypes

namespace Unicode

/-! ## Blanks and letters -/

/-- No range of one list meets a range of the other. -/
def Apart (ranges ranges' : List (Nat × Nat)) : Prop :=
  ∀ r ∈ ranges, ∀ r' ∈ ranges', r.2 < r'.1 ∨ r'.2 < r.1

/-- A character of some ranges is in none of the ranges apart from them. -/
theorem Apart.inRanges_eq_false {ranges ranges' : List (Nat × Nat)} (h : Apart ranges ranges')
    {c : Char} (hc : inRanges c ranges = true) : inRanges c ranges' = false := by
  unfold inRanges at hc ⊢
  obtain ⟨r, hr, hin⟩ := List.any_eq_true.mp hc
  refine List.any_eq_false.mpr fun r' hr' => ?_
  have hapart := h r hr r' hr'
  simp only [Bool.and_eq_true, decide_eq_true_eq] at hin ⊢
  omega

/-- No blank is a letter. -/
theorem apart_alphabetic_blank : Apart alphabeticRanges blankRanges := by
  unfold Apart
  decide +kernel

theorem isBlank_of_isAlphabetic {c : Char} (h : isAlphabetic c = true) : isBlank c = false := by
  unfold isAlphabetic at h
  split at h
  · rename_i hascii
    have hletters : ∀ n < 128, (Char.ofNat n).isAlpha = true → isBlank (Char.ofNat n) = false := by
      decide
    have hletter := hletters c.toNat hascii
    rw [Char.ofNat_toNat] at hletter
    exact hletter h
  · exact apart_alphabetic_blank.inRanges_eq_false h

end Unicode

namespace Token

/-! ## Words -/

/-- A text that is cut out as one word. -/
def IsWord (s : String) : Prop :=
  ∃ c rest, s.toList = c :: rest ∧ Unicode.isBlank c = false ∧ ofChar? c = none ∧
    startsWord c = true ∧ ∀ d ∈ rest, continuesWord d = true

/-- Marks are no words. -/
theorem ofChar?_ne_word (c : Char) (s : String) : ofChar? c ≠ some (.word s) := by
  unfold ofChar?
  split <;> simp

/-! ## Taking texts apart -/

/-- The characters are cut into these tokens, wherever they stand. -/
def Lexes (cs : List Char) (ts : List Token) : Prop :=
  ∀ offset, ∃ placed, scan offset none cs = .ok placed ∧ placed.map PlacedToken.token = ts

/-- A word could not go on here. -/
def Boundary (cs : List Char) : Prop :=
  ∀ c ∈ cs.head?, continuesWord c = false

theorem Lexes.nil : Lexes [] [] :=
  fun _ => ⟨[], rfl, rfl⟩

/-- A blank in front changes nothing. -/
theorem Lexes.blank {cs : List Char} {ts : List Token} (h : Lexes cs ts) {c : Char}
    (hc : Unicode.isBlank c = true) : Lexes (c :: cs) ts := by
  intro offset
  obtain ⟨placed, hscan, hplaced⟩ := h (offset + c.utf8Size)
  refine ⟨placed, ?_, hplaced⟩
  rw [scan]
  simp only [Option.filter_none, hc, if_true, hscan]
  rfl

/-- A mark in front is one more token. -/
theorem Lexes.mark {cs : List Char} {ts : List Token} (h : Lexes cs ts) {c : Char} {mark : Token}
    (hblank : Unicode.isBlank c = false) (hc : ofChar? c = some mark) :
    Lexes (c :: cs) (mark :: ts) := by
  intro offset
  obtain ⟨placed, hscan, hplaced⟩ := h (offset + c.utf8Size)
  refine ⟨⟨mark, offset⟩ :: placed, ?_, by simp [hplaced]⟩
  rw [scan]
  simp only [Option.filter_none, hblank, Bool.false_eq_true, if_false, hc, hscan]
  rfl

/-- An open word ends at a boundary. -/
theorem scan_close {cs : List Char} (hcs : Boundary cs) (offset : Nat) (w : Partial) :
    scan offset (some w) cs = (Partial.close (some w) ++ ·) <$> scan offset none cs := by
  cases cs with
  | nil => rfl
  | cons c rest =>
    have hc : continuesWord c = false := hcs c rfl
    rw [scan, scan]
    simp only [Option.filter_some, hc, Option.filter_none, Bool.false_eq_true, if_false]
    split
    · cases scan (offset + c.utf8Size) none rest <;> rfl
    · split
      · cases scan (offset + c.utf8Size) none rest <;> rfl
      · split
        · cases scan (offset + c.utf8Size) (some ⟨offset, [c]⟩) rest <;> rfl
        · rfl

/-- How many bytes characters take up. -/
def width : List Char → Nat
  | [] => 0
  | c :: cs => c.utf8Size + width cs

/-- An open word takes in all that continues it. -/
theorem scan_letters {letters : List Char} (h : ∀ c ∈ letters, continuesWord c = true)
    {cs : List Char} (hcs : Boundary cs) (offset : Nat) (w : Partial) :
    scan offset (some w) (letters ++ cs) =
      (⟨.word (String.ofList (w.letters.reverse ++ letters)), w.offset⟩ :: ·) <$>
        scan (offset + width letters) none cs := by
  induction letters generalizing offset w with
  | nil =>
    rw [List.nil_append, scan_close hcs, List.append_nil]
    rfl
  | cons c letters ih =>
    have heq := ih (fun d hd => h d (List.mem_cons_of_mem _ hd)) (offset + c.utf8Size)
      { w with letters := c :: w.letters }
    rw [List.cons_append, scan, width, ← Nat.add_assoc]
    simp only [Option.filter_some, h c List.mem_cons_self, if_true]
    simpa using heq

/-- A word is taken in where none is open. -/
theorem scan_word {c : Char} (hc : startsWord c = true) (hblank : Unicode.isBlank c = false)
    (hmark : ofChar? c = none) {letters : List Char}
    (hletters : ∀ d ∈ letters, continuesWord d = true) {cs : List Char} (hcs : Boundary cs)
    (offset : Nat) :
    scan offset none (c :: letters ++ cs) =
      (⟨.word (String.ofList (c :: letters)), offset⟩ :: ·) <$>
        scan (offset + width (c :: letters)) none cs := by
  rw [List.cons_append, scan, width, ← Nat.add_assoc]
  simp only [Option.filter_none, hblank, Bool.false_eq_true, if_false, hmark, hc, if_true]
  rw [scan_letters hletters hcs]
  cases scan (offset + c.utf8Size + width letters) none cs <;> rfl

/-- A word in front is one more token, if the text goes on with nothing that continues the
word. -/
theorem Lexes.word {cs : List Char} {ts : List Token} (h : Lexes cs ts) (hcs : Boundary cs)
    {s : String} (hs : IsWord s) : Lexes (s.toList ++ cs) (.word s :: ts) := by
  intro offset
  obtain ⟨c, rest, heq, hblank, hmark, hstarts, hrest⟩ := hs
  obtain ⟨placed, hscan, hplaced⟩ := h (offset + width (c :: rest))
  refine ⟨⟨.word s, offset⟩ :: placed, ?_, by simp [hplaced]⟩
  have hletters : String.ofList (c :: rest) = s := by rw [← heq, String.ofList_toList]
  rw [heq, scan_word hstarts hblank hmark hrest hcs, hscan, hletters]
  rfl

/-! ## Splitting texts -/

/-- The characters split into these tokens: blanks are skipped, marks stand for themselves, and a
word goes on for as long as it can. -/
inductive Splits : List Char → List Token → Prop
  | nil : Splits [] []
  | blank {c : Char} {cs : List Char} {ts : List Token} (hc : Unicode.isBlank c = true)
    (hcs : Splits cs ts) : Splits (c :: cs) ts
  | mark {c : Char} {mark : Token} {cs : List Char} {ts : List Token}
    (hc : ofChar? c = some mark) (hcs : Splits cs ts) : Splits (c :: cs) (mark :: ts)
  | word {c : Char} {letters cs : List Char} {ts : List Token} (hc : startsWord c = true)
    (hletters : ∀ d ∈ letters, continuesWord d = true) (hend : Boundary cs) (hcs : Splits cs ts) :
    Splits (c :: letters ++ cs) (.word (String.ofList (c :: letters)) :: ts)

/-- No mark is a blank. -/
theorem isBlank_of_mark {c : Char} {mark : Token} (h : ofChar? c = some mark) :
    Unicode.isBlank c = false := by
  unfold ofChar? at h
  split at h
  all_goals first | decide | cases h

/-- No letter is a mark. -/
theorem ofChar?_of_startsWord {c : Char} (h : startsWord c = true) : ofChar? c = none := by
  unfold ofChar?
  split
  all_goals first | rfl | exact absurd h (by decide)

theorem isBlank_of_startsWord {c : Char} (h : startsWord c = true) : Unicode.isBlank c = false := by
  unfold startsWord at h
  rcases Bool.or_eq_true_iff.mp h with h | h
  · exact Unicode.isBlank_of_isAlphabetic h
  · obtain rfl := of_decide_eq_true h
    decide

theorem isWord_ofList {c : Char} {letters : List Char} (hc : startsWord c = true)
    (hletters : ∀ d ∈ letters, continuesWord d = true) : IsWord (String.ofList (c :: letters)) :=
  ⟨c, letters, String.toList_ofList, isBlank_of_startsWord hc, ofChar?_of_startsWord hc, hc,
    hletters⟩

/-- A text that splits into tokens is cut into them. -/
theorem Splits.lexes {cs : List Char} {ts : List Token} (h : Splits cs ts) : Lexes cs ts := by
  induction h with
  | nil => exact .nil
  | blank hc _ ih => exact ih.blank hc
  | mark hc _ ih => exact ih.mark (isBlank_of_mark hc) hc
  | @word c letters cs ts hc hletters hend _ ih =>
    have hlexes := ih.word hend (isWord_ofList hc hletters)
    rwa [String.toList_ofList] at hlexes

/-! ## Splitting as far as a place -/

/-- A character that starts no token and is no blank. -/
def FitsNowhere (c : Char) : Prop :=
  Unicode.isBlank c = false ∧ ofChar? c = none ∧ startsWord c = false

/-- The characters from `offset` on split into these tokens, each with the offset of its first
byte, as far as `rest`, which is left over and starts at `last`. -/
inductive SplitsUpTo (last : Nat) (rest : List Char) : Nat → List Char → List PlacedToken → Prop
  | stop : SplitsUpTo last rest last rest []
  | blank {offset : Nat} {c : Char} {cs : List Char} {placed : List PlacedToken}
    (hc : Unicode.isBlank c = true) (h : SplitsUpTo last rest (offset + c.utf8Size) cs placed) :
    SplitsUpTo last rest offset (c :: cs) placed
  | mark {offset : Nat} {c : Char} {mark : Token} {cs : List Char} {placed : List PlacedToken}
    (hc : ofChar? c = some mark) (h : SplitsUpTo last rest (offset + c.utf8Size) cs placed) :
    SplitsUpTo last rest offset (c :: cs) (⟨mark, offset⟩ :: placed)
  | word {offset : Nat} {c : Char} {letters cs : List Char} {placed : List PlacedToken}
    (hc : startsWord c = true) (hletters : ∀ d ∈ letters, continuesWord d = true)
    (hend : Boundary cs) (h : SplitsUpTo last rest (offset + width (c :: letters)) cs placed) :
    SplitsUpTo last rest offset (c :: letters ++ cs)
      (⟨.word (String.ofList (c :: letters)), offset⟩ :: placed)

section SplitsUpTo

variable {last offset : Nat} {rest cs : List Char} {placed : List PlacedToken}

/-- The scanner takes out these tokens, and goes on with what is left over. -/
theorem SplitsUpTo.scan (h : SplitsUpTo last rest offset cs placed) :
    scan offset none cs = (placed ++ ·) <$> scan last none rest := by
  induction h with
  | stop => cases Token.scan last none rest <;> rfl
  | blank hc _ ih =>
    rw [Token.scan]
    simp only [Option.filter_none, hc, if_true, ih]
    cases Token.scan last none rest <;> rfl
  | mark hc _ ih =>
    rw [Token.scan]
    simp only [Option.filter_none, isBlank_of_mark hc, Bool.false_eq_true, if_false, hc, ih]
    cases Token.scan last none rest <;> rfl
  | word hc hletters hend _ ih =>
    rw [scan_word hc (isBlank_of_startsWord hc) (ofChar?_of_startsWord hc) hletters hend, ih]
    cases Token.scan last none rest <;> rfl

/-- Between tokens, what has been split up to a place is a split text. -/
theorem SplitsUpTo.splits (h : SplitsUpTo last [] offset cs placed) :
    Splits cs (placed.map PlacedToken.token) := by
  generalize hrest : ([] : List Char) = rest at h
  induction h with
  | stop => exact hrest ▸ .nil
  | blank hc _ ih => exact .blank hc ih
  | mark hc _ ih => exact .mark hc ih
  | word hc hletters hend _ ih => exact .word hc hletters hend ih

/-- Characters split either all of them or as far as one that fits nowhere. -/
theorem exists_splitsUpTo (offset : Nat) (cs : List Char) :
    (∃ last placed, SplitsUpTo last [] offset cs placed) ∨
      ∃ last c rest placed, SplitsUpTo last (c :: rest) offset cs placed ∧ FitsNowhere c := by
  -- a word takes several characters at once
  induction hn : cs.length using Nat.strongRecOn generalizing cs offset with
  | _ n ih =>
    cases cs with
    | nil => exact .inl ⟨offset, [], .stop⟩
    | cons c cs =>
      rw [List.length_cons] at hn
      cases hblank : Unicode.isBlank c with
      | true =>
        obtain ⟨last, placed, h⟩ | ⟨last, d, rest, placed, h, hd⟩ :=
          ih cs.length (by omega) (offset + c.utf8Size) cs rfl
        · exact .inl ⟨last, placed, .blank hblank h⟩
        · exact .inr ⟨last, d, rest, placed, .blank hblank h, hd⟩
      | false =>
        cases hmark : ofChar? c with
        | some mark =>
          obtain ⟨last, placed, h⟩ | ⟨last, d, rest, placed, h, hd⟩ :=
            ih cs.length (by omega) (offset + c.utf8Size) cs rfl
          · exact .inl ⟨last, _, .mark hmark h⟩
          · exact .inr ⟨last, d, rest, _, .mark hmark h, hd⟩
        | none =>
          cases hstarts : startsWord c with
          | false => exact .inr ⟨offset, c, cs, [], .stop, hblank, hmark, hstarts⟩
          | true =>
            have hletters : ∀ d ∈ cs.takeWhile continuesWord, continuesWord d = true :=
              fun d hd => List.mem_takeWhile_imp hd
            have hend : Boundary (cs.dropWhile continuesWord) := by
              intro d hd
              have hnot := List.head?_dropWhile_not continuesWord cs
              rw [Option.mem_def.mp hd] at hnot
              simpa using hnot
            have hlength : (cs.dropWhile continuesWord).length ≤ cs.length :=
              (List.dropWhile_suffix _).length_le
            have hcs : c :: cs = c :: cs.takeWhile continuesWord ++ cs.dropWhile continuesWord := by
              rw [List.cons_append, List.takeWhile_append_dropWhile]
            rw [hcs]
            obtain ⟨last, placed, h⟩ | ⟨last, d, rest, placed, h, hd⟩ :=
              ih _ (by omega) (offset + width (c :: cs.takeWhile continuesWord))
                (cs.dropWhile continuesWord) rfl
            · exact .inl ⟨last, _, .word hstarts hletters hend h⟩
            · exact .inr ⟨last, d, rest, _, .word hstarts hletters hend h, hd⟩

/-- A character that fits nowhere stops the scan, at its own offset. -/
theorem scan_fitsNowhere {c : Char} (hc : FitsNowhere c) (offset : Nat) (rest : List Char) :
    scan offset none (c :: rest) = .error (.unexpectedChar c offset) := by
  rw [scan]
  simp only [Option.filter_none, hc.1, hc.2.1, hc.2.2, Bool.false_eq_true, if_false]

/-- The scanner succeeds just if all characters split, and with these tokens. -/
theorem scan_eq_ok_iff : scan offset none cs = .ok placed ↔
    ∃ last, SplitsUpTo last [] offset cs placed := by
  have hok : ∀ {last placed}, SplitsUpTo last [] offset cs placed →
      scan offset none cs = .ok placed := by
    intro last placed h
    rw [h.scan]
    show Except.ok (placed ++ []) = _
    rw [List.append_nil]
  constructor
  · intro h
    obtain ⟨last, placed', hsplits⟩ | ⟨last, c, rest, placed', hsplits, hc⟩ :=
      exists_splitsUpTo offset cs
    · obtain rfl := Except.ok.inj ((hok hsplits).symm.trans h)
      exact ⟨last, hsplits⟩
    · rw [hsplits.scan, scan_fitsNowhere hc] at h
      cases h
  · rintro ⟨last, h⟩
    exact hok h

/-- The scanner fails just if the characters split as far as one that fits nowhere, and names
that character and its place. -/
theorem scan_eq_error_iff {e : ExprError} : scan offset none cs = .error e ↔
    ∃ c last rest placed, SplitsUpTo last (c :: rest) offset cs placed ∧ FitsNowhere c ∧
      e = .unexpectedChar c last := by
  have herror : ∀ {c last rest placed}, SplitsUpTo last (c :: rest) offset cs placed →
      FitsNowhere c → scan offset none cs = .error (.unexpectedChar c last) := by
    intro c last rest placed h hc
    rw [h.scan, scan_fitsNowhere hc]
    rfl
  constructor
  · intro h
    obtain ⟨last, placed, hsplits⟩ | ⟨last, c, rest, placed, hsplits, hc⟩ :=
      exists_splitsUpTo offset cs
    · rw [scan_eq_ok_iff.mpr ⟨last, hsplits⟩] at h
      cases h
    · exact ⟨c, last, rest, placed, hsplits, hc,
        (Except.error.inj ((herror hsplits hc).symm.trans h)).symm⟩
  · rintro ⟨c, last, rest, placed, hsplits, hc, rfl⟩
    exact herror hsplits hc

end SplitsUpTo

/-- What is cut out of a text are the tokens that it splits into. -/
theorem splits_of_scan {cs : List Char} {offset : Nat} {placed : List PlacedToken}
    (h : scan offset none cs = .ok placed) : Splits cs (placed.map PlacedToken.token) := by
  obtain ⟨last, hsplits⟩ := scan_eq_ok_iff.mp h
  exact hsplits.splits

/-- Only words are cut out as words. -/
theorem Splits.isWord {cs : List Char} {ts : List Token} (h : Splits cs ts) {s : String}
    (hs : .word s ∈ ts) : IsWord s := by
  induction h with
  | nil => exact absurd hs List.not_mem_nil
  | blank _ _ ih => exact ih hs
  | @mark c mark cs ts hc _ ih =>
    rcases List.mem_cons.mp hs with rfl | hs
    · exact absurd hc (ofChar?_ne_word c s)
    · exact ih hs
  | word hc hletters _ _ ih =>
    rcases List.mem_cons.mp hs with heq | hs
    · exact Token.word.inj heq ▸ isWord_ofList hc hletters
    · exact ih hs

/-- A text splits in one way at most. -/
theorem Splits.unique {cs : List Char} {ts us : List Token} (hts : Splits cs ts)
    (hus : Splits cs us) : ts = us := by
  obtain ⟨placed, hscan, rfl⟩ := hts.lexes 0
  obtain ⟨placed', hscan', rfl⟩ := hus.lexes 0
  rw [hscan] at hscan'
  obtain rfl := Except.ok.inj hscan'
  rfl

/-! ## Texts and their tokens -/

/-- The text is cut into these tokens, if no word could go on after it. -/
def Spells (s : String) (ts : List Token) : Prop :=
  ∀ cs us, Boundary cs → Lexes cs us → Lexes (s.toList ++ cs) (ts ++ us)

/-- The text is cut into these tokens, whatever follows it, and no word goes on into it. -/
def Separates (s : String) (ts : List Token) : Prop :=
  (∀ cs us, Lexes cs us → Lexes (s.toList ++ cs) (ts ++ us)) ∧ ∀ cs, Boundary (s.toList ++ cs)

theorem Separates.spells {s : String} {ts : List Token} (h : Separates s ts) : Spells s ts :=
  fun cs us _ => h.1 cs us

/-- Two texts side by side spell the tokens of both, since what comes next ends a word of the
first. -/
theorem Spells.append {s s' : String} {ts ts' : List Token} (h : Spells s ts)
    (h' : Separates s' ts') : Spells (s ++ s') (ts ++ ts') := by
  intro cs us _ hlexes
  rw [String.toList_append, List.append_assoc, List.append_assoc]
  exact h _ _ (h'.2 cs) (h'.1 cs us hlexes)

/-- What is put before a text, whatever the text is. -/
theorem Separates.append {s s' : String} {ts ts' : List Token} (h : Separates s ts)
    (h' : Spells s' ts') : Spells (s ++ s') (ts ++ ts') := by
  intro cs us hcs hlexes
  rw [String.toList_append, List.append_assoc, List.append_assoc]
  exact h.1 _ _ (h' cs us hcs hlexes)

/-- A text in brackets. -/
theorem Separates.enclose {o s c : String} {tos ts tcs : List Token} (ho : Separates o tos)
    (hs : Spells s ts) (hc : Separates c tcs) : Separates (o ++ s ++ c) (tos ++ ts ++ tcs) := by
  constructor
  · intro cs us hlexes
    rw [String.toList_append, String.toList_append, List.append_assoc, List.append_assoc,
      List.append_assoc, List.append_assoc]
    exact ho.1 _ _ (hs _ _ (hc.2 cs) (hc.1 cs us hlexes))
  · intro cs
    rw [String.toList_append, String.toList_append, List.append_assoc, List.append_assoc]
    exact ho.2 _

/-- A word spells itself. -/
theorem spells_word {s : String} (hs : IsWord s) : Spells s [.word s] :=
  fun _ _ hcs hlexes => hlexes.word hcs hs

theorem spells_empty : Spells "" [] :=
  fun _ _ _ hlexes => hlexes

/-- A mark alone. -/
theorem separates_mark {c : Char} {mark : Token} (hmark : ofChar? c = some mark)
    (hblank : Unicode.isBlank c = false) (hword : continuesWord c = false) :
    Separates (String.ofList [c]) [mark] := by
  refine ⟨fun cs us hlexes => ?_, fun cs d hd => ?_⟩
  · rw [String.toList_ofList]
    exact hlexes.mark hblank hmark
  · rw [String.toList_ofList] at hd
    obtain rfl := Option.some.inj hd
    exact hword

theorem separates_openBracket : Separates "[" [.openBracket] :=
  separates_mark rfl (by decide) (by decide)

theorem separates_closeBracket : Separates "]" [.closeBracket] :=
  separates_mark rfl (by decide) (by decide)

theorem separates_openParen : Separates "(" [.openParen] :=
  separates_mark rfl (by decide) (by decide)

theorem separates_closeParen : Separates ")" [.closeParen] :=
  separates_mark rfl (by decide) (by decide)

theorem separates_star : Separates "*" [.star] :=
  separates_mark rfl (by decide) (by decide)

theorem separates_comma : Separates ", " [.comma] := by
  refine ⟨fun cs us hlexes => ?_, fun cs c hc => ?_⟩
  · exact (hlexes.blank (c := ' ') (by decide)).mark (c := ',') (by decide) rfl
  · obtain rfl := Option.some.inj hc
    decide

theorem separates_lastComma : Separates ",)" [.comma, .closeParen] := by
  refine ⟨fun cs us hlexes => ?_, fun cs c hc => ?_⟩
  · exact (hlexes.mark (c := ')') (by decide) rfl).mark (c := ',') (by decide) rfl
  · obtain rfl := Option.some.inj hc
    decide

theorem separates_bar : Separates " | " [.bar] := by
  refine ⟨fun cs us hlexes => ?_, fun cs c hc => ?_⟩
  · have hlater := hlexes.blank (c := ' ') (by decide)
    exact (hlater.mark (c := '|') (by decide) rfl).blank (c := ' ') (by decide)
  · obtain rfl := Option.some.inj hc
    decide

/-- Texts with a separator between them. -/
theorem Separates.intercalate {sep : String} {ts : List Token} (hsep : Separates sep ts)
    {texts : List String} {tss : List (List Token)} (h : List.Forall₂ Spells texts tss) :
    Spells (sep.intercalate texts) (ts.intercalate tss) := by
  suffices hlist : ∀ cs us, Boundary cs → Lexes cs us →
      Lexes (sep.toList.intercalate (texts.map String.toList) ++ cs) (ts.intercalate tss ++ us) by
    intro cs us hcs hlexes
    rw [String.toList_intercalate]
    exact hlist cs us hcs hlexes
  induction h with
  | nil => exact fun cs us _ hlexes => hlexes
  | cons hs hrest ih =>
    intro cs us hcs hlexes
    cases hrest with
    | nil =>
      rw [List.map_singleton, List.intercalate_singleton, List.intercalate_singleton]
      exact hs cs us hcs hlexes
    | cons hs' hrest' =>
      rw [List.map_cons, List.map_cons, List.intercalate_cons_cons, List.intercalate_cons_cons,
        List.append_assoc, List.append_assoc, List.append_assoc, List.append_assoc]
      exact hs _ _ (hsep.2 _) (hsep.1 _ _ (ih cs us hcs hlexes))

end Token

end Supertypes
