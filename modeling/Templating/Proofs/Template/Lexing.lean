import Templating.Proofs.Json.Numbers
import Templating.Proofs.Template.Printing

/-!
# Reading written tokens

The text of a token, with a space behind it, is read as the token. Words and digits are read up to
the space, a string up to its closing quote, since a backslash stands before each quote inside; and
no symbol becomes a longer one or a closing delimiter. So the text of an expression between the
default delimiters is split into the tokens that were written.
-/

namespace Templating

namespace Lexer

/-- With a step for each character, the lexer finds the tokens and no fault. -/
def Lexes (controls : Controls) (s : State) (ts : List Token) : Prop :=
  ∀ fuel, s.rest.length ≤ fuel →
    (run controls fuel s).tokens.map Prod.fst = ts ∧ (run controls fuel s).error? = none

section Steps

variable {controls : Controls} {s next : State} {t : Token} {ts : List Token}

/-- Moving over characters leaves the others. -/
@[simp] theorem State.rest_skip (s : State) (count : Nat) :
    (s.skip count).rest = s.rest.drop count := rfl

/-- Moving over characters does not leave the region. -/
@[simp] theorem State.mode_skip (s : State) (count : Nat) : (s.skip count).mode = s.mode := rfl

/-- Outside of all regions nothing is left to find at the end. -/
theorem Lexes.nil (hrest : s.rest = []) (hmode : s.mode = .text) : Lexes controls s [] := by
  intro fuel _
  cases fuel <;> simp [run, hrest, State.unclosed, hmode]

/-- A step that passes characters. -/
theorem Lexes.skip (hstep : s.step controls = .skip next)
    (hshorter : next.rest.length < s.rest.length) (h : Lexes controls next ts) :
    Lexes controls s ts := by
  intro fuel hfuel
  obtain ⟨fuel, rfl⟩ : ∃ i, fuel = i + 1 := ⟨fuel - 1, by omega⟩
  have hsome : s.rest.isEmpty = false := by
    rw [List.isEmpty_eq_false_iff, ← List.length_pos_iff]
    omega
  rw [run, hsome, hstep]
  exact h fuel (by omega)

/-- A step that finds a token. -/
theorem Lexes.token {span : Span} (hstep : s.step controls = .token t span next)
    (hshorter : next.rest.length < s.rest.length) (h : Lexes controls next ts) :
    Lexes controls s (t :: ts) := by
  intro fuel hfuel
  obtain ⟨fuel, rfl⟩ : ∃ i, fuel = i + 1 := ⟨fuel - 1, by omega⟩
  have hsome : s.rest.isEmpty = false := by
    rw [List.isEmpty_eq_false_iff, ← List.length_pos_iff]
    omega
  obtain ⟨htokens, herror⟩ := h fuel (by omega)
  rw [run, hsome, hstep]
  exact ⟨by rw [← htokens]; rfl, herror⟩

end Steps

/-- With this text behind it, the text of the token is read as the token. -/
def ReadsBefore (t : Token) (tail : List Char) : Prop :=
  ∀ s : State, s.mode = .output → s.rest = t.written ++ tail →
    s.step {} = s.take t t.written.length

/-- The text of the token with a space behind it is read as the token, and is not taken for
white space. -/
structure Legible (t : Token) : Prop where
  solid : ∃ c cs, t.written = c :: cs ∧ Text.isAsciiBlank c = false
  reads : ∀ rest, ReadsBefore t (' ' :: rest)

section Characters

variable {s : State} {c : Char} {cs tail : List Char}

/-- Symbols begin with a character that is not white space. -/
theorem legible_symbol {t : Token} (h : t.isSymbol = true) : Legible t where
  solid := by
    cases t <;> first | exact ⟨_, _, rfl, rfl⟩ | cases h
  reads rest s hmode hrest := by
    cases t <;> first
      | (cases h; done)
      | (simp only [State.step, hmode, State.inside, hrest]
         rfl)

/-- Between delimiters, what begins neither with white space nor with a symbol is a string, a number
or a word. -/
theorem step_of_no_symbol (hmode : s.mode = .output) (hrest : s.rest = c :: cs)
    (hblank : Text.isAsciiBlank c = false) (hsymbol : punctuation? (c :: cs) = none) :
    s.step {} = if c = '\'' then s.string '\'' else if c = '"' then s.string '"'
      else if Number.isDigit c then s.number else s.word := by
  have hminus : '-' ≠ c := by rintro rfl; simp [punctuation?] at hsymbol
  have hbrace : '}' ≠ c := by rintro rfl; simp [punctuation?] at hsymbol
  have hclosing : Controls.closing {} .output = ['}', '}'] := rfl
  simp only [State.step, hmode, State.inside, hrest, hclosing, hblank, hsymbol, hminus, hbrace,
    Text.startsWith, Text.stripStart?, List.takeWhile_cons, List.length_nil, Nat.lt_irrefl,
    Option.isSome_none, if_false, Bool.false_eq_true]
  split
  · next heq => rw [if_pos (List.cons.inj heq).1]
  · next hquote heq =>
    obtain ⟨rfl, -⟩ := List.cons.inj heq
    rfl
  · next hsingle hdouble heq =>
    obtain ⟨rfl, rfl⟩ := List.cons.inj heq
    rw [if_neg hsingle, if_neg hdouble]
  · next heq => cases heq

/-- A character of words or numbers is no symbol. -/
theorem punctuation?_eq_none (h : isWordPart c = true) (cs : List Char) :
    punctuation? (c :: cs) = none := by
  unfold punctuation?
  split
  all_goals first
    | rfl
    | next heq => exact absurd ((List.cons.inj heq).1 ▸ h) (by decide)

/-- A character of words or numbers is none of the others. -/
theorem ne_of_isWordPart {d : Char} (h : isWordPart c = true) (hd : isWordPart d = false) :
    c ≠ d := by
  rintro rfl
  simp [h] at hd

/-- A character of words or numbers is not white space. -/
theorem isAsciiBlank_of_isWordPart (h : isWordPart c = true) : Text.isAsciiBlank c = false := by
  simp [Text.isAsciiBlank, ne_of_isWordPart h (d := ' ') (by decide),
    ne_of_isWordPart h (d := '\t') (by decide), ne_of_isWordPart h (d := '\n') (by decide),
    ne_of_isWordPart h (d := '\x0c') (by decide), ne_of_isWordPart h (d := '\r') (by decide)]

/-- Between delimiters, a word or a number begins with a character of words or numbers. -/
theorem step_of_isWordPart (hmode : s.mode = .output) (hrest : s.rest = c :: cs)
    (h : isWordPart c = true) :
    s.step {} = if Number.isDigit c then s.number else s.word := by
  rw [step_of_no_symbol hmode hrest (isAsciiBlank_of_isWordPart h) (punctuation?_eq_none h cs),
    if_neg (ne_of_isWordPart h (by decide)), if_neg (ne_of_isWordPart h (by decide))]

/-- No word begins with a digit. -/
theorem isDigit_of_isWordStart (h : isWordStart c = true) : Number.isDigit c = false := by
  simp only [isWordStart, isLetter, Bool.or_eq_true, Bool.and_eq_true, decide_eq_true_eq,
    beq_iff_eq] at h
  rw [Number.isDigit, Number.digit?, if_neg]
  · rfl
  rintro ⟨hlow, hhigh⟩
  rcases h with ((⟨h, -⟩ | ⟨h, -⟩) | rfl) | rfl
  · exact absurd (Char.le_trans h hhigh) (by decide)
  · exact absurd (Char.le_trans h hhigh) (by decide)
  · exact absurd hhigh (by decide)
  · exact absurd hlow (by decide)

/-- A row of characters of one kind ends where one of another kind follows. -/
theorem takeWhile_of_head {p : Char → Bool} (hcs : ∀ c ∈ cs, p c = true)
    (htail : ∀ c ∈ tail.head?, p c = false) : (cs ++ tail).takeWhile p = cs := by
  rw [List.takeWhile_append_of_pos hcs]
  cases tail with
  | nil => simp
  | cons c tail =>
    rw [List.takeWhile_cons, htail c rfl]
    simp

/-- A word begins with a letter or a mark and goes on with these and digits. -/
theorem exists_of_isWord {name : String} (h : isWord name = true) : ∃ c cs,
    name.toList = c :: cs ∧ isWordStart c = true ∧ ∀ d ∈ cs, isWordPart d = true := by
  unfold isWord at h
  split at h
  · next c cs hname =>
    rw [Bool.and_eq_true, List.all_eq_true] at h
    exact ⟨c, cs, hname, h.1, h.2⟩
  · cases h

/-- A character that words begin with may stand in words. -/
theorem isWordPart_of_isWordStart (h : isWordStart c = true) : isWordPart c = true := by
  simp [isWordPart, h]

/-- Words are read up to a character that does not go on with them. -/
theorem readsBefore_ident {name : String} (h : isWord name = true)
    (htail : ∀ c ∈ tail.head?, isWordPart c = false) : ReadsBefore (.ident name) tail := by
  obtain ⟨c, cs, hname, hstart, hcs⟩ := exists_of_isWord h
  have hwritten : Token.written (.ident name) = c :: cs := hname
  intro s hmode hrest
  rw [hwritten] at hrest ⊢
  have hword : wordText s.rest = c :: cs := by
    rw [hrest, List.cons_append, wordText, if_pos hstart, takeWhile_of_head hcs htail]
  rw [step_of_isWordPart hmode hrest (isWordPart_of_isWordStart hstart),
    isDigit_of_isWordStart hstart]
  simp only [if_neg Bool.false_ne_true, State.word, hword, ← hname, String.ofList_toList]
  rw [hname]
  rfl

/-- Words are legible. -/
theorem legible_ident {name : String} (h : isWord name = true) : Legible (.ident name) := by
  obtain ⟨c, cs, hname, hstart, -⟩ := exists_of_isWord h
  have hsolid := isAsciiBlank_of_isWordPart (isWordPart_of_isWordStart hstart)
  exact ⟨⟨c, cs, hname, hsolid⟩, fun rest => readsBefore_ident h (by simp; decide)⟩

/-- A digit goes on with the part of a number it stands in, unless that is the mark of an
exponent. -/
theorem next?_of_isDigit (part : NumberPart) (h : Number.isDigit c = true)
    (hpart : part ≠ .exponent) (cs : List Char) : part.next? c cs = some part := by
  have hne : ∀ d, Number.isDigit d = false → c ≠ d := fun d hd heq => by simp [← heq, h] at hd
  unfold NumberPart.next?
  rw [if_neg (hne _ (by decide)),
    if_neg (not_or.mpr ⟨hne _ (by decide), hne _ (by decide)⟩),
    if_neg (not_or.mpr ⟨hne _ (by decide), hne _ (by decide)⟩), if_pos h]
  cases part with
  | exponent => exact absurd rfl hpart
  | whole | fraction | exponentDigits => rfl

/-- The text does not go on with a whole number. -/
def EndsWhole (tail : List Char) : Prop :=
  ∀ c cs, tail = c :: cs → NumberPart.next? .whole c cs = none

/-- Digits are a whole number up to what does not go on with it. -/
theorem numberText_digits (hcs : ∀ c ∈ cs, Number.isDigit c = true) (htail : EndsWhole tail) :
    numberText .whole (cs ++ tail) = (cs, .whole) := by
  induction cs with
  | nil =>
    cases tail with
    | nil => rfl
    | cons c tail => simp only [List.nil_append, numberText, htail c tail rfl]
  | cons c cs ih =>
    rw [List.forall_mem_cons] at hcs
    simp only [List.cons_append, numberText, next?_of_isDigit .whole hcs.1 (by decide), ih hcs.2]

/-- An integer that is not negative is written as digits. -/
theorem exists_digits {n : Int64} (h : 0 ≤ n.toInt) :
    ∃ k : Nat, n.toInt = k ∧ Token.written (.int n) = Nat.toDigits 10 k := by
  obtain ⟨k, hk⟩ := Int.eq_ofNat_of_zero_le h
  refine ⟨k, hk, ?_⟩
  rw [Token.written, Token.spelling, hk]
  · exact Json.toList_toString k
  · intro s hs
    cases hs

/-- Digits of a number begin with a digit. -/
theorem exists_toDigits (k : Nat) :
    ∃ c cs, Nat.toDigits 10 k = c :: cs ∧ Number.isDigit c = true := by
  obtain ⟨c, cs, hcs⟩ := List.exists_cons_of_ne_nil (Nat.toDigits_ne_nil (n := k) (b := 10))
  exact ⟨c, cs, hcs, Number.isDigit_of_mem_toDigits (n := k) (by simp [hcs])⟩

/-- A digit may stand in words. -/
theorem isWordPart_of_isDigit (h : Number.isDigit c = true) : isWordPart c = true := by
  simp [isWordPart, h]

/-- Integers that are not negative are read up to what does not go on with a whole number. -/
theorem readsBefore_int {n : Int64} (h : 0 ≤ n.toInt) (htail : EndsWhole tail) :
    ReadsBefore (.int n) tail := by
  obtain ⟨k, hk, hwritten⟩ := exists_digits h
  obtain ⟨c, cs, hcs, hdigit⟩ := exists_toDigits k
  have hdigits : ∀ c ∈ Nat.toDigits 10 k, Number.isDigit c = true := fun _ =>
    Number.isDigit_of_mem_toDigits
  intro s hmode hrest
  rw [hwritten] at hrest ⊢
  have hword : Number.toWord? (k : Int) = some n := by
    rw [← hk, Number.toWord?_toInt]
  rw [step_of_isWordPart hmode (by rw [hrest, hcs, List.cons_append])
    (isWordPart_of_isDigit hdigit), if_pos hdigit, State.number, hrest,
    numberText_digits hdigits htail]
  simp only [numberToken?, Number.natOfDigits?_toDigits, Option.bind_some, hword]

/-- Integers that are not negative are legible. -/
theorem legible_int {n : Int64} (h : 0 ≤ n.toInt) : Legible (.int n) := by
  obtain ⟨k, -, hwritten⟩ := exists_digits h
  obtain ⟨c, cs, hcs, hdigit⟩ := exists_toDigits k
  have hsolid := isAsciiBlank_of_isWordPart (isWordPart_of_isDigit hdigit)
  exact ⟨⟨c, cs, hwritten.trans hcs, hsolid⟩, fun rest => readsBefore_int h (by
    rintro _ _ ⟨⟩
    rfl)⟩

/-- A character stands in a string literal behind a backslash, or as itself. -/
theorem addSlashes_cons (c : Char) (cs : List Char) :
    ((c = '\\' ∨ c = '\'' ∨ c = '"') ∧
      Text.addSlashes (c :: cs) = '\\' :: c :: Text.addSlashes cs) ∨
    ((c ≠ '\\' ∧ c ≠ '\'' ∧ c ≠ '"') ∧ Text.addSlashes (c :: cs) = c :: Text.addSlashes cs) := by
  by_cases h : c = '\\' ∨ c = '\'' ∨ c = '"'
  · exact .inl ⟨h, by simp [Text.addSlashes, h]⟩
  · refine .inr ⟨⟨?_, ?_, ?_⟩, by simp [Text.addSlashes, h]⟩
    · exact fun hc => h (.inl hc)
    · exact fun hc => h (.inr (.inl hc))
    · exact fun hc => h (.inr (.inr hc))

/-- The body of a string literal ends at the first quote without a backslash. -/
theorem stringBody?_addSlashes {quote : Char} (hquote : quote = '\'' ∨ quote = '"')
    (cs rest : List Char) :
    stringBody? quote (Text.addSlashes cs ++ quote :: rest) = some (Text.addSlashes cs) := by
  induction cs with
  | nil =>
    rw [Text.addSlashes, List.flatMap_nil, List.nil_append, stringBody?, if_pos rfl]
    rintro _ _ rfl
    rcases hquote with h | h <;> cases h
  | cons c cs ih =>
    rcases addSlashes_cons c cs with ⟨-, hc⟩ | ⟨⟨hslash, hsingle, hdouble⟩, hc⟩
    · rw [hc, List.cons_append, List.cons_append, stringBody?, ih, Option.map_some]
    · have hne : c ≠ quote := by rcases hquote with rfl | rfl <;> assumption
      rw [hc, List.cons_append, stringBody?, if_neg hne, if_neg hslash, ih, Option.map_some]
      exact fun _ _ h => absurd h hslash

/-- The body of a string literal is read as the string. -/
theorem unescape_addSlashes (cs : List Char) : Text.unescape (Text.addSlashes cs) = some cs := by
  unfold Text.unescape
  induction cs with
  | nil => rfl
  | cons c cs ih =>
    rcases addSlashes_cons c cs with ⟨hspecial, hc⟩ | ⟨⟨hslash, -⟩, hc⟩
    · have hescape : Text.simpleEscape? c = some c := by
        rcases hspecial with rfl | rfl | rfl <;> rfl
      have hnoUnit : c ≠ 'u' := by
        rcases hspecial with rfl | rfl | rfl <;> decide
      rw [hc, Text.unescapeFrom, hescape]
      · simp [ih]
      · exact fun _ _ _ _ _ h _ => hnoUnit h
    · rw [hc, Text.unescapeFrom, if_neg hslash, ih]
      · rfl
      · exact fun _ _ _ _ _ h _ => hslash h
      · exact fun _ _ h _ => hslash h

/-- Strings are read up to their closing quotes, whatever follows. -/
theorem readsBefore_text (value : String) (tail : List Char) : ReadsBefore (.text value) tail := by
  intro s hmode hrest
  have hrest : s.rest = '"' :: (Text.addSlashes value.toList ++ '"' :: tail) := by
    rw [hrest, Token.written, List.cons_append, List.cons_append, List.append_assoc]
    rfl
  rw [step_of_no_symbol hmode hrest (by decide) rfl]
  have hlength : (Token.written (.text value)).length =
      (Text.addSlashes value.toList).length + 2 := by
    simp [Token.written]
  rw [if_neg (by decide), if_pos rfl, hlength]
  simp only [State.string, hrest, List.drop_succ_cons, List.drop_zero,
    stringBody?_addSlashes (.inr rfl), unescape_addSlashes, String.ofList_toList]

/-- Strings are legible. -/
theorem legible_text (value : String) : Legible (.text value) :=
  ⟨⟨'"', _, rfl, by decide⟩, fun _ => readsBefore_text value _⟩

end Characters

section Regions

variable {s : State} {c : Char} {cs : List Char}

/-- A single space between delimiters is passed. -/
theorem step_space (hmode : s.mode = .output) (hrest : s.rest = ' ' :: c :: cs)
    (hblank : Text.isAsciiBlank c = false) : s.step {} = .skip (s.skip 1) := by
  have hspaces : s.rest.takeWhile Text.isAsciiBlank = [' '] := by
    rw [hrest, List.takeWhile_cons_of_pos (by decide),
      List.takeWhile_cons_of_neg (by simp [hblank])]
  simp only [State.step, hmode, State.inside, hspaces]
  rfl

/-- Behind the closing delimiter the text is literal again. -/
theorem step_closing (hmode : s.mode = .output) (hrest : s.rest = "\x7d\x7d".toList) :
    s.step {} = .token .outputEnd (s.spanOf 2) { s.skip 2 with mode := .text } := by
  simp only [State.step, hmode, State.inside, hrest]
  rfl

/-- Between delimiters the text is split into the tokens, without a fault. -/
def Splits (text : List Char) (ts : List Token) : Prop :=
  ∀ s : State, s.mode = .output → s.rest = text → Lexes {} s ts

/-- A space before what is not white space is passed. -/
theorem Splits.space {text : List Char} {ts : List Token} (h : Splits text ts)
    (hsolid : ∃ c cs, text = c :: cs ∧ Text.isAsciiBlank c = false) : Splits (' ' :: text) ts := by
  obtain ⟨c, cs, rfl, hblank⟩ := hsolid
  intro s hmode hrest
  have hnext : (s.skip 1).rest = c :: cs := by rw [State.rest_skip, hrest]; rfl
  exact .skip (step_space hmode hrest hblank) (by simp [hrest]) (h (s.skip 1) hmode hnext)

/-- A token is found before the others. -/
theorem Splits.cons {t : Token} {text : List Char} {ts : List Token} (h : Splits text ts)
    (ht : ReadsBefore t text) (hsolid : ∃ c cs, t.written = c :: cs) :
    Splits (t.written ++ text) (t :: ts) := by
  intro s hmode hrest
  have hnext : (s.skip t.written.length).rest = text := by
    rw [State.rest_skip, hrest, List.drop_left]
  refine .token (ht s hmode hrest) ?_ (h (s.skip t.written.length) hmode hnext)
  obtain ⟨c, cs, hwritten⟩ := hsolid
  rw [hnext, hrest, hwritten, List.length_append, List.length_cons]
  omega

/-- The closing delimiter ends the region. -/
theorem splits_closing : Splits "\x7d\x7d".toList [.outputEnd] := by
  intro s hmode hrest
  have hend : (s.skip 2).rest = [] := by rw [State.rest_skip, hrest]; rfl
  refine .token (step_closing hmode hrest) ?_ (.nil hend rfl)
  exact (congrArg List.length hend).trans_lt (by simp [hrest])

/-- Legible tokens are found one after the other, and behind them the closing delimiter. -/
theorem splits_allWritten {ts : List Token} (h : ∀ t ∈ ts, Legible t) :
    Splits (Token.allWritten ts ++ ' ' :: "\x7d\x7d".toList) (ts ++ [.outputEnd]) := by
  induction ts with
  | nil => exact splits_closing.space ⟨_, _, rfl, rfl⟩
  | cons t ts ih =>
    rw [List.forall_mem_cons] at h
    obtain ⟨c, cs, hwritten, hblank⟩ := h.1.solid
    obtain ⟨rest, hrest⟩ : ∃ rest,
        Token.allWritten ts ++ ' ' :: "\x7d\x7d".toList = ' ' :: rest := by
      cases ts <;> exact ⟨_, rfl⟩
    have htext : Token.allWritten (t :: ts) ++ ' ' :: "\x7d\x7d".toList =
        ' ' :: (t.written ++ (Token.allWritten ts ++ ' ' :: "\x7d\x7d".toList)) := by
      simp [Token.allWritten]
    rw [htext]
    refine ((ih h.2).cons ?_ ⟨c, cs, hwritten⟩).space ⟨c, _, by rw [hwritten]; rfl, hblank⟩
    rw [hrest]
    exact h.1.reads rest

/-- A text behind an opening delimiter is split as it is between delimiters. -/
theorem lex_output {text : List Char} {ts : List Token} (h : Splits text ts)
    (hopening : text.head? ≠ some '-') :
    (lex {} (String.ofList ("\x7b\x7b".toList ++ text))).tokens.map Prod.fst =
        .outputStart :: ts ∧
      (lex {} (String.ofList ("\x7b\x7b".toList ++ text))).error? = none := by
  have hopen : Controls.openAt? {} ('\x7b' :: '\x7b' :: text) = some (.output, text) := rfl
  have hminus : minusLength text = 0 := by
    unfold minusLength
    split
    · exact absurd rfl hopening
    · rfl
  let s : State := { cursor := { rest := '\x7b' :: '\x7b' :: text } }
  have hs : s.rest = '\x7b' :: '\x7b' :: text := rfl
  have hstep : s.step {} =
      .token .outputStart (s.spanOf 2) { s.skip 2 with openLine := s.line, mode := .output } := by
    have hmode : s.mode = .text := rfl
    simp only [State.step, hmode, hs, hopen, State.enter, hminus]
    rfl
  have hlexes : Lexes {} s (.outputStart :: ts) := by
    refine Lexes.token hstep ?_ (h _ rfl rfl)
    exact Nat.lt_succ_of_lt (Nat.lt_succ_self text.length)
  have hlex : lex {} (String.ofList ("\x7b\x7b".toList ++ text)) =
      run {} ('\x7b' :: '\x7b' :: text).length s := by
    rw [lex, String.toList_ofList]
    rfl
  rw [hlex]
  exact hlexes _ (Nat.le_refl _)

/-- The source of an expression is split into the tokens of the expression between delimiters. -/
theorem lex_written {e : Expr} (h : ∀ t ∈ e.tokens, Legible t) :
    (lex {} e.written).tokens.map Prod.fst = .outputStart :: e.tokens ++ [.outputEnd] ∧
      (lex {} e.written).error? = none := by
  have hopening : (Token.allWritten e.tokens ++ ' ' :: "\x7d\x7d".toList).head? ≠ some '-' := by
    cases e.tokens <;> exact nofun
  rw [Expr.written, List.append_assoc]
  exact lex_output (splits_allWritten h) hopening

end Regions

end Lexer

end Templating
