import Mathlib.Data.List.TakeWhile
import Templating.Proofs.Template.Lexing

/-!
# The text of a token

Between delimiters each token is read from the characters at the front of the text, and those
characters by themselves say which token it is: what stands behind them does not matter once it is
known where the token ends. White space ends every token that is not a string.
-/

namespace Templating

namespace Lexer

/-- The characters by themselves are read as the token. -/
inductive ReadFrom : Token → List Char → Prop
  | symbol {t : Token} {text : List Char} : punctuation? text = some (t, text.length) →
      ReadFrom t text
  | word {text : List Char} : text ≠ [] → wordText text = text →
      ReadFrom (.ident (String.ofList text)) text
  | number {t : Token} {text : List Char} {part : NumberPart} :
      numberText .whole text = (text, part) → numberToken? text part = some t → ReadFrom t text
  | string {quote : Char} {body value : List Char} : quote = '\'' ∨ quote = '"' →
      stringBody? quote (body ++ [quote]) = some body → Text.unescape body = some value →
      ReadFrom (.text (String.ofList value)) (quote :: body ++ [quote])

/-- The characters of a symbol are read as the symbol. -/
theorem punctuation?_take {cs : List Char} {t : Token} {n : Nat}
    (h : punctuation? cs = some (t, n)) :
    punctuation? (cs.take n) = some (t, (cs.take n).length) := by
  unfold punctuation? at h
  split at h
  all_goals first
    | cases h; rfl
    | cases h

/-- The characters of a word are read as the word. -/
theorem wordText_wordText (cs : List Char) : wordText (wordText cs) = wordText cs := by
  cases cs with
  | nil => rfl
  | cons c rest =>
    by_cases h : isWordStart c = true
    · simp [wordText, h, List.takeWhile_idem]
    · simp [wordText, h]

/-- A word stands at the front of the text it is read from. -/
theorem wordText_prefix (cs : List Char) : wordText cs <+: cs := by
  cases cs with
  | nil => exact List.prefix_refl _
  | cons c rest =>
    rw [wordText]
    split
    · exact List.cons_prefix_cons.mpr ⟨rfl, List.takeWhile_prefix _⟩
    · exact List.nil_prefix

/-- A number stands at the front of the text it is read from. -/
theorem numberText_prefix (part : NumberPart) (cs : List Char) :
    (numberText part cs).1 <+: cs := by
  induction cs generalizing part with
  | nil => exact List.prefix_refl _
  | cons c rest ih =>
    rw [numberText]
    split
    · exact List.cons_prefix_cons.mpr ⟨rfl, ih _⟩
    · exact List.nil_prefix

/-- The next character belongs to a number whether or not the text behind the number is there. -/
theorem next?_numberText {part part' : NumberPart} {c : Char} {rest : List Char}
    (h : part.next? c rest = some part') : part.next? c (numberText part' rest).1 = some part' := by
  by_cases hpoint : c = '.'
  · -- a point belongs to the number because of the digit behind it, which then does too
    subst hpoint
    match part, rest with
    | .whole, d :: rest =>
      by_cases hdigit : Number.isDigit d = true
      · obtain rfl : part' = .fraction := by simpa [NumberPart.next?, hdigit, eq_comm] using h
        have htext : (numberText .fraction (d :: rest)).1 = d :: (numberText .fraction rest).1 := by
          rw [numberText, next?_of_isDigit .fraction hdigit (by decide)]
        rw [htext]
        simp [NumberPart.next?, hdigit]
      · simp [NumberPart.next?, hdigit] at h
    | .whole, [] | .fraction, _ | .exponent, _ | .exponentDigits, _ => simp [NumberPart.next?] at h
  · simpa only [NumberPart.next?, if_neg hpoint] using h

/-- The characters of a number are read as the number. -/
theorem numberText_numberText (part : NumberPart) (cs : List Char) :
    numberText part (numberText part cs).1 = numberText part cs := by
  induction cs generalizing part with
  | nil => rfl
  | cons c rest ih =>
    cases hnext : part.next? c rest with
    | none => simp [numberText, hnext]
    | some part' =>
      have htext : numberText part (c :: rest) =
          (c :: (numberText part' rest).1, (numberText part' rest).2) := by
        rw [numberText, hnext]
      rw [htext, numberText, next?_numberText hnext]
      dsimp only
      rw [ih]

/-- The body of a string literal stands before its closing quote, and is read as the body whatever
follows the quote. -/
theorem exists_closing_quote {quote : Char} (hquote : quote ≠ '\\') {cs body : List Char}
    (h : stringBody? quote cs = some body) :
    ∃ rest, cs = body ++ quote :: rest ∧
      ∀ other, stringBody? quote (body ++ quote :: other) = some body := by
  fun_induction stringBody? quote cs generalizing body with
  | case1 => cases h
  | case2 c rest ih =>
    obtain ⟨body, hbody, rfl⟩ := Option.map_eq_some_iff.mp h
    obtain ⟨rest, rfl, hother⟩ := ih hbody
    refine ⟨rest, rfl, fun other => ?_⟩
    rw [List.cons_append, List.cons_append, stringBody?, hother, Option.map_some]
  | case3 rest hescape =>
    obtain rfl := Option.some.inj h
    refine ⟨rest, rfl, fun other => ?_⟩
    rw [List.nil_append, stringBody?, if_pos rfl]
    exact fun _ _ heq => absurd heq hquote
  | case4 => cases h
  | case5 c rest hescape hne hslash ih =>
    obtain ⟨body, hbody, rfl⟩ := Option.map_eq_some_iff.mp h
    obtain ⟨rest, rfl, hother⟩ := ih hbody
    refine ⟨rest, rfl, fun other => ?_⟩
    rw [List.cons_append, stringBody?, if_neg hne, if_neg hslash, hother, Option.map_some]
    exact fun _ _ heq => absurd heq hslash

/-- Symbols have at least one character. -/
theorem pos_of_punctuation? {cs : List Char} {t : Token} {n : Nat}
    (h : punctuation? cs = some (t, n)) : 0 < n := by
  unfold punctuation? at h
  split at h
  all_goals first
    | cases h; omega
    | cases h

/-- No symbol reaches behind the end of the text. -/
theorem le_length_of_punctuation? {cs : List Char} {t : Token} {n : Nat}
    (h : punctuation? cs = some (t, n)) : n ≤ cs.length := by
  unfold punctuation? at h
  split at h
  all_goals first
    | cases h; simp
    | cases h

/-- Numbers have at least one character. -/
theorem pos_of_numberText {c : Char} (h : Number.isDigit c = true) (cs : List Char) :
    0 < (numberText .whole (c :: cs)).1.length := by
  simp [numberText, next?_of_isDigit .whole h (by decide)]

/-- What is read: a token from so many characters, or the error for the line that is given. -/
abbrev Reading := Except (Nat → Error) (Token × Nat)

/-- What the front of a text is read as, as a string literal behind its opening quote. -/
def stringAt (quote : Char) (cs : List Char) : Reading :=
  match stringBody? quote cs with
  | none => .error fun line => .onLine (.unclosedString line) line
  | some body =>
    match Text.unescape body with
    | some value => .ok (.text (String.ofList value), body.length + 2)
    | none => .error fun _ => .ofFault .badEscape

/-- What the front of a text is read as, as a number. -/
def numberAt (cs : List Char) : Reading :=
  match numberToken? (numberText .whole cs).1 (numberText .whole cs).2 with
  | some token => .ok (token, (numberText .whole cs).1.length)
  | none =>
    .error fun line =>
      .onLine (.unexpectedNumber (String.ofList (numberText .whole cs).1) line) line

/-- What the front of a text is read as, as a word. -/
def wordAt (cs : List Char) : Reading :=
  if (wordText cs).isEmpty then
    .error fun line => .onLine (.unexpectedCharacter (cs.headD '\x00') line) line
  else .ok (.ident (String.ofList (wordText cs)), (wordText cs).length)

/-- What the front of a text is read as between delimiters, where neither white space nor the
closing delimiter stands. -/
def tokenAt (cs : List Char) : Reading :=
  match punctuation? cs with
  | some found => .ok found
  | none =>
    match cs with
    | [] => wordAt []
    | c :: rest =>
      if c = '\'' ∨ c = '"' then stringAt c rest
      else if Number.isDigit c then numberAt (c :: rest)
      else wordAt (c :: rest)

/-- The token is read from the characters at the front of the text. -/
structure ReadsAt (cs : List Char) (t : Token) (n : Nat) : Prop where
  pos : 0 < n
  le : n ≤ cs.length
  text : ReadFrom t (cs.take n)

/-- A string literal is read from its quotes and the text between them. -/
theorem readsAt_string {quote : Char} (hquote : quote = '\'' ∨ quote = '"') {cs : List Char}
    {t : Token} {n : Nat} (h : stringAt quote cs = .ok (t, n)) : ReadsAt (quote :: cs) t n := by
  unfold stringAt at h
  split at h
  · cases h
  · next body hbody =>
    split at h
    · next value hvalue =>
      obtain ⟨rfl, rfl⟩ := Prod.mk.inj (Except.ok.inj h)
      have hslash : quote ≠ '\\' := by rcases hquote with rfl | rfl <;> decide
      obtain ⟨rest, rfl, hother⟩ := exists_closing_quote hslash hbody
      have htext : (quote :: (body ++ quote :: rest)).take (body.length + 2) =
          quote :: body ++ [quote] := by
        rw [List.take_succ_cons, List.take_length_add_append]
        rfl
      exact ⟨Nat.succ_pos _, by simp, htext ▸ .string hquote (hother []) hvalue⟩
    · cases h

/-- A number is read from its characters. -/
theorem readsAt_number {c : Char} (hdigit : Number.isDigit c = true) {cs : List Char} {t : Token}
    {n : Nat} (h : numberAt (c :: cs) = .ok (t, n)) : ReadsAt (c :: cs) t n := by
  unfold numberAt at h
  split at h
  · next token htoken =>
    obtain ⟨rfl, rfl⟩ := Prod.mk.inj (Except.ok.inj h)
    have hprefix := numberText_prefix .whole (c :: cs)
    refine ⟨pos_of_numberText hdigit cs, hprefix.length_le, ?_⟩
    rw [← List.prefix_iff_eq_take.mp hprefix]
    exact .number (numberText_numberText .whole (c :: cs)) htoken
  · cases h

/-- A word is read from its characters. -/
theorem readsAt_word {cs : List Char} {t : Token} {n : Nat} (h : wordAt cs = .ok (t, n)) :
    ReadsAt cs t n := by
  unfold wordAt at h
  split at h
  · cases h
  · next hne =>
    obtain ⟨rfl, rfl⟩ := Prod.mk.inj (Except.ok.inj h)
    have hne : wordText cs ≠ [] := fun hnil => hne (List.isEmpty_iff.mpr hnil)
    have hprefix := wordText_prefix cs
    refine ⟨List.length_pos_iff.mpr hne, hprefix.length_le, ?_⟩
    rw [← List.prefix_iff_eq_take.mp hprefix]
    exact .word hne (wordText_wordText cs)

/-- A token is read from at least one of the characters at the front. -/
theorem readsAt_of_tokenAt {cs : List Char} {t : Token} {n : Nat} (h : tokenAt cs = .ok (t, n)) :
    ReadsAt cs t n := by
  unfold tokenAt at h
  split at h
  · next found hsymbol =>
    obtain rfl := Except.ok.inj h
    exact ⟨pos_of_punctuation? hsymbol, le_length_of_punctuation? hsymbol,
      .symbol (punctuation?_take hsymbol)⟩
  · split at h
    · exact readsAt_word h
    · split at h
      · next hquote => exact readsAt_string hquote h
      · split at h
        · next hdigit => exact readsAt_number hdigit h
        · exact readsAt_word h

section BeforeBlank

/-- A symbol of one character goes no further unless the next one is part of a longer symbol. -/
theorem punctuation?_of_ne {d : Char} (heq : d ≠ '=') (hand : d ≠ '&') (hor : d ≠ '|') (c : Char)
    (cs : List Char) : punctuation? (c :: d :: cs) = punctuation? [c] := by
  unfold punctuation?
  grind

/-- No symbol has more than three characters. -/
theorem punctuation?_three (c d e : Char) (cs : List Char) :
    punctuation? (c :: d :: e :: cs) = punctuation? [c, d, e] := by
  by_cases heq : d = '='
  · subst heq
    by_cases heq : e = '='
    · subst heq
      unfold punctuation?
      grind
    · have htwo (cs : List Char) :
          punctuation? (c :: '=' :: e :: cs) = punctuation? [c, '='] := by
        unfold punctuation?
        grind
      rw [htwo, htwo]
  by_cases hand : d = '&'
  · subst hand
    unfold punctuation?
    grind
  by_cases hor : d = '|'
  · subst hor
    unfold punctuation?
    grind
  rw [punctuation?_of_ne heq hand hor, punctuation?_of_ne heq hand hor]

variable {b : Char} (hb : Text.isAsciiBlank b = true)

include hb

/-- What holds of the five characters holds of white space. -/
theorem of_isAsciiBlank {P : Char → Prop}
    (h : P ' ' ∧ P '\t' ∧ P '\n' ∧ P '\x0c' ∧ P '\r') : P b := by
  obtain ⟨hspace, htab, hline, hfeed, hreturn⟩ := h
  simp only [Text.isAsciiBlank, Bool.or_eq_true, beq_iff_eq] at hb
  rcases hb with (((rfl | rfl) | rfl) | rfl) | rfl <;> assumption

/-- White space is none of the characters that are not. -/
theorem ne_of_isAsciiBlank {c : Char} (hc : Text.isAsciiBlank c = false) : b ≠ c := by
  rintro rfl
  exact absurd hb (by simp [hc])

/-- White space is no digit. -/
theorem isDigit_of_isAsciiBlank : Number.isDigit b = false :=
  of_isAsciiBlank hb (P := fun c => Number.isDigit c = false) (by decide)

/-- White space is not part of a word. -/
theorem isWordPart_of_isAsciiBlank : isWordPart b = false :=
  of_isAsciiBlank hb (P := fun c => isWordPart c = false) (by decide)

/-- Symbols end before white space. -/
theorem punctuation?_before_blank (ys zs : List Char) :
    punctuation? (ys ++ b :: zs) = punctuation? (ys ++ [b]) := by
  match ys with
  | [] =>
    exact of_isAsciiBlank hb (P := fun c => punctuation? (c :: zs) = punctuation? [c])
      ⟨rfl, rfl, rfl, rfl, rfl⟩
  | [c] =>
    have hne {d : Char} (hd : Text.isAsciiBlank d = false) := ne_of_isAsciiBlank hb hd
    exact (punctuation?_of_ne (hne (by decide)) (hne (by decide)) (hne (by decide)) c zs).trans
      (punctuation?_of_ne (hne (by decide)) (hne (by decide)) (hne (by decide)) c []).symm
  | [c, d] => exact punctuation?_three c d b zs
  | c :: d :: e :: ys =>
    exact (punctuation?_three c d e _).trans (punctuation?_three c d e _).symm

/-- White space is not part of a number. -/
theorem next?_isAsciiBlank (part : NumberPart) (cs : List Char) : part.next? b cs = none := by
  have hne {d : Char} (hd : Text.isAsciiBlank d = false) := ne_of_isAsciiBlank hb hd
  unfold NumberPart.next?
  rw [if_neg (hne (by decide)), if_neg (not_or.mpr ⟨hne (by decide), hne (by decide)⟩),
    if_neg (not_or.mpr ⟨hne (by decide), hne (by decide)⟩), isDigit_of_isAsciiBlank hb,
    if_neg Bool.false_ne_true]

/-- A number goes on in front of white space as it does at the end. -/
theorem next?_before_blank (part : NumberPart) (c : Char) (ys zs : List Char) :
    part.next? c (ys ++ b :: zs) = part.next? c ys := by
  cases ys with
  | nil =>
    -- a point needs a digit behind it
    have hdigit := isDigit_of_isAsciiBlank hb
    unfold NumberPart.next?
    cases part <;> simp [hdigit]
  | cons d ys =>
    unfold NumberPart.next?
    cases part <;> rfl

/-- Numbers end before white space. -/
theorem numberText_before_blank (part : NumberPart) (ys zs : List Char) :
    numberText part (ys ++ b :: zs) = numberText part ys := by
  induction ys generalizing part with
  | nil => simp [numberText, next?_isAsciiBlank hb]
  | cons c ys ih =>
    rw [List.cons_append, numberText, numberText, next?_before_blank hb]
    cases part.next? c ys with
    | none => rfl
    | some part' =>
      dsimp only
      rw [ih]

/-- Words end before white space. -/
theorem wordText_before_blank (ys zs : List Char) : wordText (ys ++ b :: zs) = wordText ys := by
  have hpart := isWordPart_of_isAsciiBlank hb
  have hrest (cs : List Char) : (cs ++ b :: zs).takeWhile isWordPart = cs.takeWhile isWordPart := by
    induction cs with
    | nil => simp [hpart]
    | cons c cs ih => simp [List.takeWhile_cons, ih]
  cases ys with
  | nil =>
    have hstart : isWordStart b = false := (Bool.or_eq_false_iff.mp hpart).1
    simp [wordText, hstart]
  | cons c ys => rw [List.cons_append, wordText, wordText, hrest]

end BeforeBlank

/-- A string literal that is closed in the text is read as it is without what stands behind. -/
theorem stringAt_append {quote : Char} (hquote : quote = '\'' ∨ quote = '"') {xs : List Char}
    (hclosed : (stringBody? quote xs).isSome) (zs : List Char) :
    stringAt quote (xs ++ zs) = stringAt quote xs := by
  obtain ⟨body, hbody⟩ := Option.isSome_iff_exists.mp hclosed
  have hslash : quote ≠ '\\' := by rcases hquote with rfl | rfl <;> decide
  obtain ⟨rest, rfl, hother⟩ := exists_closing_quote hslash hbody
  rw [List.append_assoc, List.cons_append, stringAt, stringAt, hother, hother]

/-- What is read at the front of a text in which there is white space, and in which a string literal
that begins at the front is closed, does not depend on what stands behind the text. -/
theorem tokenAt_append {xs : List Char} (hblank : ∃ b ∈ xs, Text.isAsciiBlank b = true)
    (hclosed : ∀ quote rest, quote = '\'' ∨ quote = '"' → xs = quote :: rest →
      (stringBody? quote rest).isSome) (zs : List Char) : tokenAt (xs ++ zs) = tokenAt xs := by
  obtain ⟨b, hmem, hb⟩ := hblank
  obtain ⟨ys, more, hxs⟩ := List.append_of_mem hmem
  have hsymbol : punctuation? (xs ++ zs) = punctuation? xs := by
    rw [hxs, List.append_assoc, List.cons_append, punctuation?_before_blank hb,
      ← punctuation?_before_blank hb ys more]
  have hnumber : numberText .whole (xs ++ zs) = numberText .whole xs := by
    rw [hxs, List.append_assoc, List.cons_append, numberText_before_blank hb,
      numberText_before_blank hb]
  have hword : wordText (xs ++ zs) = wordText xs := by
    rw [hxs, List.append_assoc, List.cons_append, wordText_before_blank hb,
      wordText_before_blank hb]
  cases xs with
  | nil => exact absurd hmem List.not_mem_nil
  | cons c rest =>
    rw [tokenAt.eq_def, tokenAt.eq_def (c :: rest), hsymbol]
    cases punctuation? (c :: rest) with
    | some found => rfl
    | none =>
      dsimp only [List.cons_append]
      split
      · next hquote => exact stringAt_append hquote (hclosed c rest hquote rfl) zs
      · rw [List.cons_append] at hnumber hword
        rw [numberAt, numberAt, wordAt, wordAt, hnumber, hword]
        rfl

end Lexer

end Templating
