import Templating.Template.Token
import Templating.Value.Basic
import Templating.Text.Blank

/-!
# Template trees

A parsed template: literal text, output points and tags, with expressions inside. Every node and
every expression remembers the stretch of source it came from; only the line it starts on has a
meaning later, for error locations.
-/

namespace Templating

/-- Operators on one operand. -/
inductive UnaryOp where
  | not
  | neg
  deriving Repr, DecidableEq, Inhabited

/-- Operators on two operands. -/
inductive BinaryOp where
  | eq
  | ne
  | lt
  | le
  | gt
  | ge
  | and
  | or
  | add
  | sub
  | mul
  | div
  | rem
  | concat
  | within
  deriving Repr, DecidableEq, Inhabited

/-- An expression. -/
inductive Expr where
  | var (name : String) (span : Span)
  | const (value : Value) (span : Span)
  | unary (op : UnaryOp) (operand : Expr) (span : Span)
  | binary (op : BinaryOp) (left right : Expr) (span : Span)
  | attr (subject : Expr) (name : String) (span : Span)
  | item (subject key : Expr) (span : Span)
  | filter (name : String) (subject : Expr) (args : List Expr) (span : Span)
  | call (callee : Expr) (args : List Expr) (span : Span)
  | list (items : List Expr) (span : Span)
  | map (entries : List (Expr × Expr)) (span : Span)
  deriving Inhabited

namespace Expr

/-- Where the expression stands. -/
def span : Expr → Span
  | var _ s => s
  | const _ s => s
  | unary _ _ s => s
  | binary _ _ _ s => s
  | attr _ _ s => s
  | item _ _ s => s
  | filter _ _ _ s => s
  | call _ _ s => s
  | list _ s => s
  | map _ s => s

/-- The line the expression starts on. -/
def line (e : Expr) : Nat := e.span.start.line

/-- What sort of expression it is. -/
def description : Expr → String
  | var .. => "variable"
  | const .. => "constant"
  | unary .. => "expression"
  | binary .. => "expression"
  | attr .. => "attribute lookup"
  | item .. => "subscript"
  | filter .. => "filter expression"
  | call .. => "call"
  | list .. => "list literal"
  | map .. => "map literal"

/-- The value of a literal. -/
def asConst? : Expr → Option Value
  | const v _ => some v
  | _ => none

end Expr

/-- One filter in the chain of an output point. -/
structure FilterCall where
  name : String
  args : List Expr
  span : Span
  deriving Inhabited

/-- An argument of a tag. -/
inductive TagArg where
  | expr (e : Expr)
  /-- A bare word: a name or a target of an assignment. -/
  | ident (name : String)
  | text (value : String)
  /-- A keyword such as `only`. -/
  | flag (name : String)
  deriving Inhabited

namespace TagArg

/-- The expression of the argument. -/
def asExpr? : TagArg → Option Expr
  | expr e => some e
  | _ => none

/-- The bare word of the argument. -/
def asIdent? : TagArg → Option String
  | ident name => some name
  | _ => none

/-- The string of the argument. -/
def asText? : TagArg → Option String
  | text value => some value
  | _ => none

/-- The argument is the given keyword. -/
def isFlag (keyword : String) : TagArg → Bool
  | flag name => name == keyword
  | _ => false

end TagArg

mutual

/-- A piece of a template. -/
inductive Node where
  | literal (text : String) (span : Span)
  /-- An expression, the filters applied to it one after the other, and its output. -/
  | output (subject : Expr) (filters : List FilterCall) (span : Span)
  | tag (name : String) (args : List TagArg) (body : List Node) (branches : List Branch)
      (span : Span)

/-- A part of a tag's body that begins with a label such as `else`. -/
inductive Branch where
  | mk (label : String) (args : List TagArg) (body : List Node) (span : Span)

end

instance : Inhabited Node := ⟨.literal "" {}⟩
instance : Inhabited Branch := ⟨.mk "" [] [] {}⟩

namespace Branch

/-- The word that begins the branch. -/
def label : Branch → String
  | mk label .. => label

/-- The arguments of the label. -/
def args : Branch → List TagArg
  | mk _ args .. => args

/-- The nodes of the branch. -/
def body : Branch → List Node
  | mk _ _ body _ => body

/-- The line of the label. -/
def line : Branch → Nat
  | mk _ _ _ span => span.start.line

/-- The condition of the branch, if its label takes one. -/
def condition? (b : Branch) : Option Expr := b.args.head?.bind TagArg.asExpr?

end Branch

namespace Node

/-- The line the node starts on. -/
def line : Node → Nat
  | literal _ span => span.start.line
  | output _ _ span => span.start.line
  | tag _ _ _ _ span => span.start.line

/-- Literal text that is all white space. -/
def isBlank : Node → Bool
  | literal text _ => Text.allBlank text.toList
  | _ => false

end Node

/-- A parsed template under its name. -/
structure Template where
  name : String
  nodes : List Node
  deriving Inhabited

end Templating
