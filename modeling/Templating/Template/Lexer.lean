import Templating.Options
import Templating.Template.Token
import Templating.Text.Literal

/-!
# Lexer

Splits a source into tokens. Outside of delimiters everything up to the next opening delimiter is
one piece of literal text; a `-` on the inner side of a delimiter drops the white space on its
outer side. Comments vanish, and a raw block is one piece of literal text up to its end tag.
Between delimiters the text splits into words, numbers, strings and punctuation.

One step looks at the front of the remaining text and removes at least one character, so the number
of characters left bounds the number of steps.
-/

namespace Templating

namespace Lexer

/-- The rest of a source and where it begins. -/
structure Cursor where
  rest : List Char
  at_ : Position := {}
  deriving Inhabited

/-- Move over the first characters. -/
def Cursor.skip (c : Cursor) (count : Nat) : Cursor :=
  ⟨c.rest.drop count, c.at_.advance (c.rest.take count)⟩

/-- Which part of a template the cursor is in. -/
inductive Mode where
  | text
  | output
  | tag
  deriving Repr, DecidableEq, Inhabited

/-- The state between two tokens. -/
structure State where
  cursor : Cursor
  mode : Mode := .text
  /-- The line of the last opening delimiter. -/
  openLine : Nat := 1
  /-- The last closing delimiter asked to drop the white space after it. -/
  trimNext : Bool := false
  deriving Inhabited

/-- What one step finds. -/
inductive Step where
  | skip (next : State)
  | token (token : Token) (span : Span) (next : State)
  | fault (error : Error)

/-- The number of characters of a minus sign at the front. -/
def minusLength : List Char → Nat
  | '-' :: _ => 1
  | _ => 0

/-- The next opening delimiter: the text before it, and whether a minus sign follows it. -/
def findOpening? (controls : Controls) : List Char → Option (List Char × Bool)
  | [] => none
  | c :: cs =>
    match controls.openAt? (c :: cs) with
    | some (_, rest) => some ([], minusLength rest == 1)
    | none => (findOpening? controls cs).map fun (before, trim) => (c :: before, trim)

/-- Recognise the inside of a tag that consists of one word, up to and with its closing delimiter:
the number of characters, and whether a minus sign stands before the closing delimiter. -/
def simpleTag? (name closing cs : List Char) : Option (Nat × Bool) := do
  let afterMinus := cs.drop (minusLength cs)
  let afterName ← Text.stripStart? name (afterMinus.dropWhile Text.isAsciiBlank)
  let tail := afterName.dropWhile Text.isAsciiBlank
  let rest ← Text.stripStart? closing (tail.drop (minusLength tail))
  some (cs.length - rest.length, minusLength tail == 1)

/-- The end of a raw block: the number of characters before its end tag, the length of the end tag,
and the two minus signs of the end tag. An opening delimiter that does not begin the end tag is
skipped as a whole: `skip` counts its characters still to pass. -/
def findRawEnd? (opening closing : List Char) (skip before : Nat) :
    List Char → Option (Nat × Nat × Bool × Bool)
  | [] => none
  | c :: cs =>
    match skip with
    | n + 1 => findRawEnd? opening closing n (before + 1) cs
    | 0 =>
      match Text.stripStart? opening (c :: cs) with
      | none => findRawEnd? opening closing 0 (before + 1) cs
      | some inner =>
        match simpleTag? "endraw".toList closing inner with
        | some (length, trimAfter) =>
          some (before, opening.length + length, minusLength inner == 1, trimAfter)
        | none => findRawEnd? opening closing (opening.length - 1) (before + 1) cs

/-- The body of a string literal up to its closing quote. A backslash keeps the next character from
closing the literal. -/
def stringBody? (quote : Char) : List Char → Option (List Char)
  | [] => none
  | '\\' :: c :: rest => (stringBody? quote rest).map fun body => '\\' :: c :: body
  | c :: rest =>
    if c = quote then some []
    else if c = '\\' then none
    else (stringBody? quote rest).map (c :: ·)

/-- How far a number has been read. -/
inductive NumberPart where
  | whole
  | fraction
  | exponent
  | exponentDigits
  deriving Repr, DecidableEq

/-- The part of a number the next character belongs to, if it belongs to the number. A point counts
only when a digit follows it. -/
def NumberPart.next? (part : NumberPart) (c : Char) (rest : List Char) : Option NumberPart :=
  if c = '.' then
    match part, rest with
    | .whole, d :: _ => if Number.isDigit d then some .fraction else none
    | _, _ => none
  else if c = 'e' ∨ c = 'E' then
    match part with
    | .whole => some .exponent
    | .fraction => some .exponent
    | _ => none
  else if c = '+' ∨ c = '-' then
    match part with
    | .exponent => some .exponentDigits
    | _ => none
  else if Number.isDigit c then
    match part with
    | .exponent => some .exponentDigits
    | other => some other
  else none

/-- The longest number at the front of a text, and the part it ends in. -/
def numberText (part : NumberPart) : List Char → List Char × NumberPart
  | [] => ([], part)
  | c :: rest =>
    match part.next? c rest with
    | some part' =>
      let (text, last) := numberText part' rest
      (c :: text, last)
    | none => ([], part)

/-- The token of a number: an integer if it has neither fraction nor exponent and fits 64 bits, the
nearest float otherwise. -/
def numberToken? (text : List Char) (part : NumberPart) : Option Token :=
  let float := (Number.decimal? text).map fun d => Token.float d.toFloat
  match part with
  | .whole =>
    match (Number.natOfDigits? text).bind fun n => Number.toWord? (n : Int) with
    | some n => some (.int n)
    | none => float
  | _ => float

/-- An ASCII letter. -/
def isLetter (c : Char) : Bool := ('a' ≤ c && c ≤ 'z') || ('A' ≤ c && c ≤ 'Z')

/-- Characters a word may begin with. -/
def isWordStart (c : Char) : Bool := isLetter c || c == '_' || c == '$'

/-- Characters a word may go on with. -/
def isWordPart (c : Char) : Bool := isWordStart c || Number.isDigit c

/-- The word at the front of a text. -/
def wordText : List Char → List Char
  | [] => []
  | c :: rest => if isWordStart c then c :: rest.takeWhile isWordPart else []

/-- The punctuation at the front of a text and its length, the longest reading first. -/
def punctuation? : List Char → Option (Token × Nat)
  | '=' :: '=' :: '=' :: _ => some (.eq, 3)
  | '!' :: '=' :: '=' :: _ => some (.ne, 3)
  | '=' :: '=' :: _ => some (.eq, 2)
  | '!' :: '=' :: _ => some (.ne, 2)
  | '>' :: '=' :: _ => some (.ge, 2)
  | '<' :: '=' :: _ => some (.le, 2)
  | '&' :: '&' :: _ => some (.and, 2)
  | '|' :: '|' :: _ => some (.or, 2)
  | '+' :: _ => some (.plus, 1)
  | '-' :: _ => some (.minus, 1)
  | '*' :: _ => some (.star, 1)
  | '/' :: _ => some (.slash, 1)
  | '%' :: _ => some (.percent, 1)
  | '!' :: _ => some (.bang, 1)
  | '.' :: _ => some (.dot, 1)
  | ',' :: _ => some (.comma, 1)
  | ':' :: _ => some (.colon, 1)
  | '~' :: _ => some (.tilde, 1)
  | '|' :: _ => some (.pipe, 1)
  | '=' :: _ => some (.assign, 1)
  | '>' :: _ => some (.gt, 1)
  | '<' :: _ => some (.lt, 1)
  | '(' :: _ => some (.parenOpen, 1)
  | ')' :: _ => some (.parenClose, 1)
  | '[' :: _ => some (.bracketOpen, 1)
  | ']' :: _ => some (.bracketClose, 1)
  | '{' :: _ => some (.braceOpen, 1)
  | '}' :: _ => some (.braceClose, 1)
  | _ => none

namespace State

/-- The remaining text. -/
def rest (s : State) : List Char := s.cursor.rest

/-- The current line. -/
def line (s : State) : Nat := s.cursor.at_.line

/-- Move over characters. -/
def skip (s : State) (count : Nat) : State := { s with cursor := s.cursor.skip count }

/-- The span of the next characters. -/
def spanOf (s : State) (count : Nat) : Span := ⟨s.cursor.at_, (s.cursor.skip count).at_⟩

/-- Take the next characters as a token. -/
def take (s : State) (token : Token) (count : Nat) : Step :=
  .token token (s.spanOf count) (s.skip count)

/-- Fail with a fault on a line. -/
def failAt (line : Nat) (fault : Fault) : Step := .fault (.onLine fault line)

/-- Text that is left when the source ends between delimiters. -/
def unclosed (s : State) (controls : Controls) : Option Error :=
  match s.mode with
  | .text => none
  | .output => some (.onLine (.unclosed "variable" controls.output.opening s.openLine) s.openLine)
  | .tag => some (.onLine (.unclosed "tag" controls.tag.opening s.openLine) s.openLine)

/-- Read the content of a raw block, standing behind its start tag. Minus signs in the two tags drop
white space at the ends of the content. -/
def raw (s : State) (controls : Controls) (trimStart : Bool) : Step :=
  match findRawEnd? (controls.opening .tag) (controls.closing .tag) 0 0 s.rest with
  | none => failAt s.openLine (.unclosedRaw s.openLine)
  | some (length, endLength, trimEnd, trimAfter) =>
    let content := s.rest.take length
    let content := if trimStart then Text.trimStart content else content
    let content := if trimEnd then Text.trimEnd content else content
    let next := s.skip (length + endLength)
    .token (.data (String.ofList content)) (s.spanOf length)
      { next with trimNext := s.trimNext || trimAfter }

/-- Enter the region whose opening delimiter stands at the front; `inner` follows the delimiter. -/
def enter (s : State) (controls : Controls) (marker : Marker) (inner : List Char) : Step :=
  let width := (controls.opening marker).length
  let s := { s with openLine := s.line }
  match marker with
  | .comment =>
    let closing := controls.closing .comment
    match Text.splitAt? closing inner with
    | none =>
      failAt s.openLine (.unclosed "comment" controls.comment.opening s.openLine)
    | some (body, _) =>
      let next := s.skip (width + body.length + closing.length)
      .skip { next with trimNext := s.trimNext || body.getLast? == some '-' }
  | .output =>
    match s.take .outputStart (width + minusLength inner) with
    | .token t span next => .token t span { next with mode := .output }
    | other => other
  | .tag =>
    match simpleTag? "raw".toList (controls.closing .tag) inner with
    | some (length, trim) => (s.skip (width + length)).raw controls trim
    | none =>
      match s.take .tagStart (width + minusLength inner) with
      | .token t span next => .token t span { next with mode := .tag }
      | other => other

/-- Read literal text up to the next opening delimiter. -/
def literal (s : State) (controls : Controls) : Step :=
  let blanks := if s.trimNext then (s.rest.takeWhile Text.isBlank).length else 0
  let s := { s.skip blanks with trimNext := false }
  let (before, trim) := (findOpening? controls s.rest).getD (s.rest, false)
  let lead := if trim then Text.trimEnd before else before
  let next := s.skip before.length
  if lead.isEmpty then .skip next
  else .token (.data (String.ofList lead)) (s.spanOf lead.length) next

/-- Read a string literal, standing at its opening quote. -/
def string (s : State) (quote : Char) : Step :=
  match stringBody? quote (s.rest.drop 1) with
  | none => failAt s.line (.unclosedString s.line)
  | some body =>
    match Text.unescape body with
    | some value => s.take (.text (String.ofList value)) (body.length + 2)
    | none => .fault (.ofFault .badEscape)

/-- Read a number. -/
def number (s : State) : Step :=
  let (text, part) := numberText .whole s.rest
  match numberToken? text part with
  | some token => s.take token text.length
  | none => failAt s.line (.unexpectedNumber (String.ofList text) s.line)

/-- Read a word. -/
def word (s : State) : Step :=
  let text := wordText s.rest
  if text.isEmpty then failAt s.line (.unexpectedCharacter (s.rest.headD '\x00') s.line)
  else s.take (.ident (String.ofList text)) text.length

/-- Read between delimiters: white space, the closing delimiter, or a token. -/
def inside (s : State) (controls : Controls) (marker : Marker) (ending : Token) : Step :=
  let blanks := (s.rest.takeWhile Text.isAsciiBlank).length
  let closing := controls.closing marker
  if 0 < blanks then .skip (s.skip blanks)
  else if Text.startsWith ('-' :: closing) s.rest then
    .token ending (s.spanOf (closing.length + 1))
      { s.skip (closing.length + 1) with mode := .text, trimNext := true }
  else if Text.startsWith closing s.rest then
    .token ending (s.spanOf closing.length) { s.skip closing.length with mode := .text }
  else
    match punctuation? s.rest with
    | some (token, length) => s.take token length
    | none =>
      match s.rest with
      | '\'' :: _ => s.string '\''
      | '"' :: _ => s.string '"'
      | c :: _ => if Number.isDigit c then s.number else s.word
      | [] => s.word

/-- One step at the front of the remaining text. -/
def step (s : State) (controls : Controls) : Step :=
  match s.mode with
  | .output => s.inside controls .output .outputEnd
  | .tag => s.inside controls .tag .tagEnd
  | .text =>
    match controls.openAt? s.rest with
    | some (marker, inner) => s.enter controls marker inner
    | none => s.literal controls

end State

/-- The tokens of a source, and the error that ended them early, if one did. -/
structure Lexed where
  tokens : List (Token × Span) := []
  error? : Option Error := none
  deriving Inhabited

/-- Take steps until the text is used up or a fault is met. Each step removes a character, so as
many steps as there are characters are enough. -/
def run (controls : Controls) : Nat → State → Lexed
  | 0, s => { error? := s.unclosed controls }
  | fuel + 1, s =>
    if s.rest.isEmpty then { error? := s.unclosed controls }
    else
      match s.step controls with
      | .skip next => run controls fuel next
      | .token token span next =>
        let lexed := run controls fuel next
        { lexed with tokens := (token, span) :: lexed.tokens }
      | .fault error => { error? := some error }

end Lexer

/-- Split a source into tokens. -/
def lex (controls : Controls) (source : String) : Lexer.Lexed :=
  let cs := source.toList
  Lexer.run controls cs.length { cursor := { rest := cs } }

end Templating
