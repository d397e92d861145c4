import Templating.Number.Decimal

/-!
# Tokens

What a template source consists of: pieces of literal text and, between delimiters, words, numbers,
strings and punctuation, each with the stretch of the source it came from.
-/

namespace Templating

/-- A token. -/
inductive Token where
  /-- Literal text outside of all delimiters. -/
  | data (text : String)
  | outputStart
  | outputEnd
  | tagStart
  | tagEnd
  | ident (name : String)
  /-- A string literal without its quotes, escapes resolved. -/
  | text (value : String)
  | int (value : Int64)
  | float (value : Float)
  | plus
  | minus
  | star
  | slash
  | percent
  | bang
  | dot
  | comma
  | colon
  | tilde
  | assign
  | pipe
  | eq
  | ne
  | gt
  | ge
  | lt
  | le
  | and
  | or
  | bracketOpen
  | bracketClose
  | parenOpen
  | parenClose
  | braceOpen
  | braceClose
  deriving Inhabited

namespace Token

/-- The sort of token, as messages name it. -/
def sort : Token → String
  | data _ => "template data"
  | outputStart => "opening delimiter"
  | tagStart => "opening delimiter"
  | outputEnd => "closing delimiter"
  | tagEnd => "closing delimiter"
  | ident _ => "variable"
  | text _ => "string"
  | int _ => "number"
  | float _ => "number"
  | comma => "comma"
  | dot => "dot"
  | colon => "colon"
  | pipe => "filter"
  | assign => "assignment"
  | bracketOpen => "bracket"
  | bracketClose => "bracket"
  | parenOpen => "parenthesis"
  | parenClose => "parenthesis"
  | braceOpen => "curly brace"
  | braceClose => "curly brace"
  | _ => "operator"

/-- The token as messages quote it. -/
def spelling : Token → String
  | data s => s
  | ident s => s
  | text s => s
  | outputStart => "start of variable block"
  | outputEnd => "end of variable block"
  | tagStart => "start of tag"
  | tagEnd => "end of tag"
  | int n => Number.intText n.toInt
  | float x => Number.floatText .quoted x
  | plus => "+"
  | minus => "-"
  | star => "*"
  | slash => "/"
  | percent => "%"
  | bang => "!"
  | dot => "."
  | comma => ","
  | colon => ":"
  | tilde => "~"
  | assign => "="
  | pipe => "|"
  | eq => "=="
  | ne => "!="
  | gt => ">"
  | ge => ">="
  | lt => "<"
  | le => "<="
  | and => "&&"
  | or => "||"
  | bracketOpen => "["
  | bracketClose => "]"
  | parenOpen => "("
  | parenClose => ")"
  | braceOpen => "\x7b"
  | braceClose => "\x7d"

end Token

/-- A place in a source: line from one, column in characters and offset in bytes from zero. -/
structure Position where
  line : Nat := 1
  column : Nat := 0
  offset : Nat := 0
  deriving Repr, DecidableEq, Inhabited

/-- A stretch of a source. -/
structure Span where
  start : Position := { line := 0 }
  stop : Position := { line := 0 }
  deriving Repr, DecidableEq, Inhabited

namespace Position

/-- The position after one more character. -/
def step (p : Position) (c : Char) : Position :=
  if c = '\n' then ⟨p.line + 1, 0, p.offset + c.utf8Size⟩
  else ⟨p.line, p.column + 1, p.offset + c.utf8Size⟩

/-- The position after a text. -/
def advance (p : Position) (cs : List Char) : Position := cs.foldl step p

/-- Moving over two texts one after the other. -/
theorem advance_append (p : Position) (cs ds : List Char) :
    p.advance (cs ++ ds) = (p.advance cs).advance ds := List.foldl_append ..

end Position

end Templating
