import Templating.Proofs.Template.Division

/-!
# White space control

A minus sign in a delimiter drops the white space on the outer side of the delimiter and nothing
else. On the side of the opening delimiter this holds for every source. On the side of the closing
delimiter it holds where text stands behind it; where the next delimiter stands there, the white
space behind that one is dropped as well.
-/

namespace Templating

namespace Lexer

/-- Leading white space is dropped and nothing else. -/
theorem trimStart_spec (cs : List Char) :
    ∃ front, cs = front ++ Text.trimStart cs ∧ (∀ c ∈ front, Text.isBlank c = true) ∧
      ∀ c ∈ (Text.trimStart cs).head?, Text.isBlank c = false := by
  refine ⟨cs.takeWhile Text.isBlank, List.takeWhile_append_dropWhile.symm, ?_, ?_⟩
  · intro c hc
    exact List.all_eq_true.mp List.all_takeWhile c hc
  · intro c hc
    have hhead := List.head?_dropWhile_not Text.isBlank cs
    rw [Text.trimStart] at hc
    rw [Option.mem_def.mp hc] at hhead
    simpa using hhead

/-- Trailing white space is dropped and nothing else. -/
theorem trimEnd_spec (cs : List Char) :
    ∃ back, cs = Text.trimEnd cs ++ back ∧ (∀ c ∈ back, Text.isBlank c = true) ∧
      ∀ c ∈ (Text.trimEnd cs).getLast?, Text.isBlank c = false := by
  obtain ⟨front, hfront, hblank, hhead⟩ := trimStart_spec cs.reverse
  refine ⟨front.reverse, ?_, fun c hc => hblank c (List.mem_reverse.mp hc), ?_⟩
  · have hreversed := congrArg List.reverse hfront
    rwa [List.reverse_reverse, List.reverse_append] at hreversed
  · rw [Text.trimEnd, List.getLast?_reverse]
    exact hhead

/-- Of the text between two delimiters, white space is missing at the ends only: all of it at an end
where the delimiter has a minus sign, and none at the other ends. -/
theorem kept_spec (after before : Bool) (chars : List Char) :
    ∃ front back, chars = front ++ kept after before chars ++ back ∧
      (∀ c ∈ front ++ back, Text.isBlank c = true) ∧
      (if after then ∀ c ∈ (kept after before chars).head?, Text.isBlank c = false
        else front = []) ∧
      (if before then ∀ c ∈ (kept after before chars).getLast?, Text.isBlank c = false
        else back = []) := by
  obtain ⟨front, left, hleft, hchars, hfront, hhead⟩ : ∃ front left,
      (if after then Text.trimStart chars else chars) = left ∧ chars = front ++ left ∧
        (∀ c ∈ front, Text.isBlank c = true) ∧
        (if after then ∀ c ∈ left.head?, Text.isBlank c = false else front = []) := by
    cases after with
    | false => exact ⟨[], chars, rfl, rfl, nofun, rfl⟩
    | true =>
      obtain ⟨front, hfront⟩ := trimStart_spec chars
      exact ⟨front, _, rfl, hfront⟩
  rw [kept, hleft]
  cases before with
  | false =>
    refine ⟨front, [], ?_, ?_, hhead, rfl⟩
    · simpa using hchars
    · simpa using hfront
  | true =>
    obtain ⟨back, hback, hblank, hlast⟩ := trimEnd_spec left
    refine ⟨front, back, ?_, ?_, ?_, hlast⟩
    · rw [if_pos rfl, List.append_assoc, ← hback]
      exact hchars
    · intro c hc
      exact (List.mem_append.mp hc).elim (hfront c) (hblank c)
    · rw [if_pos rfl]
      cases after with
      | false => exact hhead
      | true =>
        intro c hc
        apply hhead c
        rw [hback, List.head?_append, Option.mem_def.mp hc]
        rfl

/-- The piece is literal text. -/
def Piece.isText : Piece → Bool
  | .text _ => true
  | _ => false

/-- Behind a minus sign in a closing delimiter stands text, or nothing more. `after` says whether
there is a minus sign in front. -/
def Separated : Bool → List Piece → Prop
  | _, [] => True
  | after, piece :: rest => (after = true → piece.isText = true) ∧ Separated piece.minusAfter rest

/-- If text stands behind each minus sign, there is none to carry over. -/
theorem Separated.tokensOf_eq {after : Bool} {pieces : List Piece} (h : Separated after pieces) :
    tokensOf true after pieces = tokensOf false after pieces := by
  induction pieces generalizing after with
  | nil => rfl
  | cons piece rest ih =>
    obtain ⟨hfront, hrest⟩ := h
    have hlater := ih hrest
    have hnone (hpiece : piece.isText = false) : after = false := by
      cases after with
      | false => rfl
      | true => exact absurd (hfront rfl) (by simp [hpiece])
    cases piece with
    | text chars =>
      have hlater : tokensOf true false rest = tokensOf false false rest := hlater
      rw [tokensOf, tokensOf, hlater]
    | region tokens signs =>
      have hlater : tokensOf true signs.after rest = tokensOf false signs.after rest := hlater
      rw [tokensOf, tokensOf, hnone rfl, Bool.and_false, Bool.and_false, Bool.false_or, hlater]
    | raw content start stop =>
      have hlater : tokensOf true stop.after rest = tokensOf false stop.after rest := hlater
      rw [tokensOf, tokensOf, hnone rfl, Bool.and_false, Bool.and_false, Bool.false_or, hlater]

/-- White space control over every source. A source is accepted if and only if it is divided into
pieces, and its tokens are those of the pieces: between two delimiters the text is kept but for the
white space at the ends where there are minus signs. Behind a minus sign in a closing delimiter this
is the text that comes next, so it is the text directly behind if there is such text. -/
theorem tokens_of_pieces (source : String) :
    ((lex {} source).error? = none ↔ ∃ pieces, Divides {} source.toList pieces) ∧
      ∀ pieces, Divides {} source.toList pieces →
        (lex {} source).tokens.map Prod.fst = tokensOf true false pieces ∧
          (Separated false pieces →
            (lex {} source).tokens.map Prod.fst = tokensOf false false pieces) := by
  refine ⟨⟨exists_divides solid_default, ?_⟩, ?_⟩
  · rintro ⟨pieces, hpieces⟩
    exact (hpieces.lex_eq solid_default).2
  · intro pieces hpieces
    have htokens := (hpieces.lex_eq solid_default).1
    refine ⟨htokens, ?_⟩
    intro hseparated
    rw [htokens]
    exact hseparated.tokensOf_eq

/-- An output point between minus signs. -/
theorem tokens_of_pieces_trimmed : ∃ pieces,
    Divides {} "a \x7b\x7b- 1 -\x7d\x7d b".toList pieces ∧
      (lex {} "a \x7b\x7b- 1 -\x7d\x7d b").tokens.map Prod.fst = tokensOf true false pieces := by
  have herror : (lex {} "a \x7b\x7b- 1 -\x7d\x7d b").error? = none := by decide +kernel
  obtain ⟨hdivided, htokens⟩ := tokens_of_pieces "a \x7b\x7b- 1 -\x7d\x7d b"
  obtain ⟨pieces, hpieces⟩ := hdivided.mp herror
  exact ⟨pieces, hpieces, (htokens pieces hpieces).1⟩

/-- The number one is written in an output point in front of the text. -/
theorem divides_one (after : Bool) {rest : List Char} {pieces : List Piece}
    (h : Divides {} rest pieces) :
    Divides {}
      ("\x7b\x7b 1 ".toList ++ (if after then ['-'] else []) ++ "\x7d\x7d".toList ++ rest)
      (.region [.outputStart, .int 1, .outputEnd] ⟨false, after⟩ :: pieces) := by
  have hread (s : State) (hs : s.rest = "1 ".toList ++ (if after then ['-'] else []) ++
      "\x7d\x7d".toList ++ rest) : s.inside {} .output .outputEnd = s.take (.int 1) 1 := by
    have hnumber : s.number = s.take (.int 1) 1 := by
      cases after <;>
      · rw [State.number, hs]
        rfl
    rw [State.inside, hs]
    cases after <;> exact hnumber
  have hclose : Inside {} .output (" ".toList ++ (if after then ['-'] else []) ++
      "\x7d\x7d".toList ++ rest) [.outputEnd] after rest := by
    cases after with
    | false => exact .blank (List.cons_ne_nil _ _) (.close rfl rfl)
    | true => exact .blank (List.cons_ne_nil _ _) (.close rfl rfl)
  have hinside : Inside {} .output (" 1 ".toList ++ (if after then ['-'] else []) ++
      "\x7d\x7d".toList ++ rest) [.int 1, .outputEnd] after rest :=
    .blank (List.cons_ne_nil _ _) (.token (List.cons_ne_nil _ _) Nat.one_pos hread hclose)
  have hopen : Controls.openAt? {} ("\x7b\x7b 1 ".toList ++ (if after then ['-'] else []) ++
      "\x7d\x7d".toList ++ rest) = some (.output, " 1 ".toList ++ (if after then ['-'] else []) ++
      "\x7d\x7d".toList ++ rest) := rfl
  exact .region hopen (.inl rfl) hinside h

/-- The white space behind a delimiter without a minus sign is not always there: the one in front of
it may have dropped it. -/
theorem not_forall_tokens_local : ¬ ∀ (source : String) (pieces : List Piece),
    (lex {} source).error? = none → Divides {} source.toList pieces →
      (lex {} source).tokens.map Prod.fst = tokensOf false false pieces := by
  intro h
  have hsilent : Silent {} "  b".toList [] := by
    intro tail hne hsuffix
    rcases List.suffix_cons_iff.mp hsuffix with rfl | hsuffix
    · rfl
    rcases List.suffix_cons_iff.mp hsuffix with rfl | hsuffix
    · rfl
    rcases List.suffix_cons_iff.mp hsuffix with rfl | hsuffix
    · rfl
    · exact absurd (List.suffix_nil.mp hsuffix) hne
  have htext : Divides {} "  b".toList [.text "  b".toList] :=
    .text (List.cons_ne_nil _ _) hsilent (.inl rfl) .nil
  have hsource : Divides {} "\x7b\x7b 1 -\x7d\x7d\x7b\x7b 1 \x7d\x7d  b".toList
      [.region [.outputStart, .int 1, .outputEnd] ⟨false, true⟩,
        .region [.outputStart, .int 1, .outputEnd] ⟨false, false⟩, .text "  b".toList] :=
    divides_one true (divides_one false htext)
  obtain ⟨htokens, herror⟩ := hsource.lex_eq solid_default
  have hlocal := h _ _ herror hsource
  rw [htokens] at hlocal
  have hlast : some (Token.data "b") = some (Token.data "  b") := congrArg List.getLast? hlocal
  exact absurd (Token.data.inj (Option.some.inj hlast)) (by decide)

end Lexer

end Templating
