import Templating.Template.Lexer
import Templating.Template.Tree

/-!
# Reading tokens

The parser state is the list of tokens still to read. Reading looks one token ahead, so an error of
the lexer shows up exactly when the parser reaches the place where the tokens end. A failure notes
the line of the last token read, which is where the template error is reported unless the fault
brings a line of its own.
-/

namespace Templating

/-- The tokens still to read. -/
structure TokenStream where
  rest : List (Token × Span)
  /-- What ended the tokens early. -/
  error? : Option Error
  /-- The span of the last token read. -/
  last : Span := {}

/-- A reader of tokens. -/
abbrev Parser (α : Type) := StateT TokenStream Result α

namespace Parser

/-- The line errors are reported on. -/
def failureLine (s : TokenStream) : Nat := max 1 s.last.start.line

/-- Fail, noting the line of the last token read. -/
def fail {α : Type} (fault : Fault) : Parser α := fun s =>
  .error (.onLine fault (failureLine s))

/-- Look at the next token; there is none at the end of the template. -/
def peek? : Parser (Option (Token × Span)) := fun s =>
  match s.rest, s.error? with
  | t :: _, _ => .ok (some t, s)
  | [], none => .ok (none, s)
  | [], some e => .error { e with line? := some (e.line?.getD (failureLine s)) }

/-- Read the next token. -/
def next? : Parser (Option (Token × Span)) := fun s =>
  match s.rest, s.error? with
  | t :: rest, _ => .ok (some t, { s with rest := rest, last := t.2 })
  | [], none => .ok (none, s)
  | [], some e => .error { e with line? := some (e.line?.getD (failureLine s)) }

/-- Pass the next token. -/
def advance : Parser Unit := do
  let _ ← next?

/-- The span of the next token, or of the last one at the end. -/
def currentSpan : Parser Span := fun s =>
  .ok ((s.rest.head?.map Prod.snd).getD s.last, s)

/-- The line of the next token. -/
def currentLine : Parser Nat := do
  return (← currentSpan).start.line

/-- Let a span that began earlier end with the last token read. -/
def upToHere (span : Span) : Parser Span := fun s => .ok ({ span with stop := s.last.stop }, s)

/-- The fault of a token that does not belong where it stands. -/
def misplaced (token : Token) (span : Span) : Fault :=
  match token with
  | .tagEnd => .unexpectedTagEnd span.start.line
  | .outputEnd => .unexpectedTagEnd span.start.line
  | other => .unexpectedToken other.sort other.spelling span.start.line

/-- Fail because the template ends here. -/
def failAtEnd {α : Type} : Parser α := fun s =>
  .error (.onLine (.unexpectedEnd s.last.stop.line) (failureLine s))

/-- Read a token; the end of the template is a fault. -/
def require : Parser (Token × Span) := do
  match ← next? with
  | some t => return t
  | none => failAtEnd

/-- Read one given sort of token. -/
def expect (accept : Token → Bool) : Parser Unit := do
  let (token, span) ← require
  if accept token then return () else fail (misplaced token span)

/-- Pass the next token if it is of the given sort. -/
def skipIf (accept : Token → Bool) : Parser Bool := do
  match ← peek? with
  | some (token, _) =>
    if accept token then
      advance
      return true
    else return false
  | none => return false

/-- Fail because of the next token. -/
def unexpected {α : Type} : Parser α := do
  match ← peek? with
  | some (token, span) => fail (misplaced token span)
  | none => do
    let span ← currentSpan
    fail (.unexpectedEnd span.stop.line)

/-- The token is the given word. -/
def isWord (word : String) : Token → Bool
  | .ident name => name == word
  | _ => false

/-- The token is punctuation of the given spelling. -/
def isPunctuation (spelling : String) : Token → Bool
  | .ident _ => false
  | .text _ => false
  | token => token.spelling == spelling

/-- Read a bare word. -/
def ident : Parser String := do
  match ← require with
  | (.ident name, _) => return name
  | (token, span) => fail (misplaced token span)

/-- Read a string literal. -/
def text : Parser String := do
  match ← require with
  | (.text value, _) => return value
  | (token, span) => fail (misplaced token span)

/-- Pass a keyword if it comes next. -/
def skipWord (word : String) : Parser Bool := skipIf (isWord word)

/-- Read a keyword. -/
def expectWord (word : String) : Parser Unit := do
  if ← skipWord word then return () else unexpected

/-- Pass punctuation if it comes next. -/
def skipPunctuation (spelling : String) : Parser Bool := skipIf (isPunctuation spelling)

/-- Read punctuation. -/
def expectPunctuation (spelling : String) : Parser Unit := do
  if ← skipPunctuation spelling then return () else unexpected

/-- The token closes a tag. -/
def isTagEnd : Token → Bool
  | .tagEnd => true
  | _ => false

/-- The token closes an output point. -/
def isOutputEnd : Token → Bool
  | .outputEnd => true
  | _ => false

/-- The tag closes here. -/
def atTagEnd : Parser Bool := do
  match ← peek? with
  | some (token, _) => return isTagEnd token
  | none => return false

/-- Fail unless the tag closes here. -/
def expectTagEnd : Parser Unit := do
  if ← atTagEnd then return () else unexpected

/-- Repeat a step that reads at least one token whenever it goes on. The tokens left at the start
bound the number of rounds. -/
def iterate {σ α : Type} (step : σ → Parser (σ ⊕ α)) (init : σ) : Parser α := fun s =>
  go s.rest init s
where
  /-- One round, and after it at most one for each of the given tokens. -/
  go : List (Token × Span) → σ → Parser α
    | [], x => do
      match ← step x with
      | .inl _ => fail .outOfSteps
      | .inr result => return result
    | _ :: rounds, x => do
      match ← step x with
      | .inl y => go rounds y
      | .inr result => return result

/-- Run a parser on a token list, placing a failure in the named template. -/
def run {α : Type} (p : Parser α) (template : String) (lexed : Lexer.Lexed) : Result α :=
  match p { rest := lexed.tokens, error? := lexed.error? } with
  | .ok (a, _) => .ok a
  | .error e => .error (e.locate template 1)

end Parser

end Templating
