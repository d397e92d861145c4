import Templating.Template.Reading

/-!
# Printing expressions

An expression written out as a row of tokens, with no more parentheses than the precedence of the
operators asks for. The rank of an expression is the place of its outermost operator between the
tightest operators and the loosest ones; what stands where only tighter expressions may stand is
put in parentheses. The text has one space before each token.

The depth of an expression counts the levels of nesting that its reader goes through: lists, maps,
items, arguments and prefix signs lie one level down, parentheses two.
-/

namespace Templating

/-- The place of an operator between the tightest and the loosest ones. -/
def BinaryOp.rank : BinaryOp → Nat
  | mul => 4
  | div => 4
  | rem => 4
  | concat => 5
  | add => 6
  | sub => 6
  | eq => 7
  | ne => 7
  | lt => 7
  | le => 7
  | gt => 7
  | ge => 7
  | within => 7
  | and => 9
  | or => 10

/-- The token of an operator. -/
def BinaryOp.token : BinaryOp → Token
  | mul => .star
  | div => .slash
  | rem => .percent
  | concat => .tilde
  | add => .plus
  | sub => .minus
  | eq => .eq
  | ne => .ne
  | lt => .lt
  | le => .le
  | gt => .gt
  | ge => .ge
  | within => .ident "in"
  | and => .ident "and"
  | or => .ident "or"

/-- The place of an operator between the tightest and the loosest ones. -/
def UnaryOp.rank : UnaryOp → Nat
  | neg => 3
  | not => 8

/-- The token of an operator. -/
def UnaryOp.token : UnaryOp → Token
  | neg => .minus
  | not => .ident "not"

/-- The token of a constant. -/
def Value.token : Value → Token
  | bool true => .ident "true"
  | bool false => .ident "false"
  | int n => .int n
  | text s _ => .text s
  | _ => .ident "none"

/-- There is a token for the constant: it is none, a truth value, an integer that is not negative
or a plain string. -/
def Value.isPrintable : Value → Bool
  | null => true
  | bool _ => true
  | int n => 0 ≤ n.toInt
  | text _ safe => !safe
  | _ => false

/-- The text is a single word. -/
def Lexer.isWord (name : String) : Bool :=
  match name.toList with
  | c :: cs => isWordStart c && cs.all isWordPart
  | [] => false

/-- Punctuation between delimiters. -/
def Token.isSymbol : Token → Bool
  | data _ => false
  | outputStart => false
  | outputEnd => false
  | tagStart => false
  | tagEnd => false
  | ident _ => false
  | text _ => false
  | int _ => false
  | float _ => false
  | _ => true

/-- Tokens that stand in parentheses unless they fit. -/
def Token.enclosedUnless (fits : Bool) (ts : List Token) : List Token :=
  if fits then ts else .parenOpen :: ts ++ [.parenClose]

/-- Rows of tokens with commas in between. -/
def Token.separated : List (List Token) → List Token
  | [] => []
  | ts :: rest => ts ++ rest.flatMap (.comma :: ·)

namespace Expr

open Token (enclosedUnless separated)

/-- The place of the outermost operator: zero for what needs no operator, ten for the loosest. -/
def rank : Expr → Nat
  | var .. => 0
  | const .. => 0
  | list .. => 0
  | map .. => 0
  | attr .. => 1
  | item .. => 1
  | call .. => 1
  | filter .. => 2
  | unary op _ _ => op.rank
  | binary op _ _ _ => op.rank

/-- A string literal, which may stand as the key of a map without parentheses. -/
def isText : Expr → Bool
  | const (.text ..) _ => true
  | _ => false

mutual

/-- The tokens of an expression. -/
def tokens : Expr → List Token
  | .var name _ => [.ident name]
  | .const value _ => [value.token]
  | .unary op operand _ => op.token :: enclosedUnless (operand.rank ≤ op.rank) operand.tokens
  | .binary op left right _ =>
    enclosedUnless (left.rank ≤ op.rank) left.tokens ++
      op.token :: enclosedUnless (right.rank < op.rank) right.tokens
  | .attr subject name _ =>
    enclosedUnless (subject.rank ≤ 1) subject.tokens ++ [.dot, .ident name]
  | .item subject key _ =>
    enclosedUnless (subject.rank ≤ 1) subject.tokens ++
      .bracketOpen :: key.tokens ++ [.bracketClose]
  | .filter name subject args _ =>
    enclosedUnless (subject.rank ≤ 2) subject.tokens ++ .pipe :: .ident name ::
      if args.isEmpty then [] else .parenOpen :: separated (tokensOfAll args) ++ [.parenClose]
  | .call callee args _ =>
    enclosedUnless (callee.rank ≤ 1) callee.tokens ++
      .parenOpen :: separated (tokensOfAll args) ++ [.parenClose]
  | .list items _ => .bracketOpen :: separated (tokensOfAll items) ++ [.bracketClose]
  | .map entries _ => .braceOpen :: separated (tokensOfEntries entries) ++ [.braceClose]

/-- The tokens of each of several expressions. -/
def tokensOfAll : List Expr → List (List Token)
  | [] => []
  | e :: rest => e.tokens :: tokensOfAll rest

/-- The tokens of each entry of a map. -/
def tokensOfEntries : List (Expr × Expr) → List (List Token)
  | [] => []
  | (key, value) :: rest =>
    (enclosedUnless key.isText key.tokens ++ .colon :: value.tokens) :: tokensOfEntries rest

end

mutual

/-- There are tokens for all that the expression consists of, and its filters are registered. -/
def isPrintable (isFilter : String → Bool) : Expr → Bool
  | .var name _ =>
    Lexer.isWord name && !(["true", "false", "null", "none", "not"].contains name)
  | .const value _ => value.isPrintable
  | .unary _ operand _ => operand.isPrintable isFilter
  | .binary _ left right _ => left.isPrintable isFilter && right.isPrintable isFilter
  | .attr subject name _ => Lexer.isWord name && subject.isPrintable isFilter
  | .item subject key _ => subject.isPrintable isFilter && key.isPrintable isFilter
  | .filter name subject args _ =>
    (Lexer.isWord name && isFilter name) &&
      (subject.isPrintable isFilter && allPrintable isFilter args)
  | .call callee args _ => callee.isPrintable isFilter && allPrintable isFilter args
  | .list items _ => allPrintable isFilter items
  | .map entries _ => entriesPrintable isFilter entries

/-- There are tokens for each of several expressions. -/
def allPrintable (isFilter : String → Bool) : List Expr → Bool
  | [] => true
  | e :: rest => e.isPrintable isFilter && allPrintable isFilter rest

/-- There are tokens for the entries of a map. -/
def entriesPrintable (isFilter : String → Bool) : List (Expr × Expr) → Bool
  | [] => true
  | (key, value) :: rest =>
    (key.isPrintable isFilter && value.isPrintable isFilter) && entriesPrintable isFilter rest

end

/-- The depth of an expression with parentheses around it unless it fits. -/
def enclosedDepth (fits : Bool) (depth : Nat) : Nat := if fits then depth else depth + 2

mutual

/-- The levels of nesting that reading the tokens of an expression takes. -/
def depth : Expr → Nat
  | .var .. => 1
  | .const .. => 1
  | .unary .neg operand _ => enclosedDepth (operand.rank ≤ 3) operand.depth + 1
  | .unary .not operand _ => enclosedDepth (operand.rank ≤ 8) operand.depth
  | .binary op left right _ =>
    max (enclosedDepth (left.rank ≤ op.rank) left.depth)
      (enclosedDepth (right.rank < op.rank) right.depth)
  | .attr subject _ _ => enclosedDepth (subject.rank ≤ 1) subject.depth
  | .item subject key _ => max (enclosedDepth (subject.rank ≤ 1) subject.depth) (key.depth + 1)
  | .filter _ subject args _ =>
    max (enclosedDepth (subject.rank ≤ 2) subject.depth) (depthOfAll args)
  | .call callee args _ => max (enclosedDepth (callee.rank ≤ 1) callee.depth) (depthOfAll args)
  | .list items _ => depthOfAll items + 1
  | .map entries _ => depthOfEntries entries + 1

/-- The levels of nesting of expressions one level further down. -/
def depthOfAll : List Expr → Nat
  | [] => 0
  | e :: rest => max (e.depth + 1) (depthOfAll rest)

/-- The levels of nesting of the entries of a map. -/
def depthOfEntries : List (Expr × Expr) → Nat
  | [] => 0
  | (key, value) :: rest =>
    max (max (enclosedDepth key.isText key.depth) (value.depth + 1)) (depthOfEntries rest)

end

mutual

/-- The expression without the places it came from. -/
def erased : Expr → Expr
  | .var name _ => .var name {}
  | .const value _ => .const value {}
  | .unary op operand _ => .unary op operand.erased {}
  | .binary op left right _ => .binary op left.erased right.erased {}
  | .attr subject name _ => .attr subject.erased name {}
  | .item subject key _ => .item subject.erased key.erased {}
  | .filter name subject args _ => .filter name subject.erased (allErased args) {}
  | .call callee args _ => .call callee.erased (allErased args) {}
  | .list items _ => .list (allErased items) {}
  | .map entries _ => .map (entriesErased entries) {}

/-- Expressions without the places they came from. -/
def allErased : List Expr → List Expr
  | [] => []
  | e :: rest => e.erased :: allErased rest

/-- The entries of a map without the places they came from. -/
def entriesErased : List (Expr × Expr) → List (Expr × Expr)
  | [] => []
  | (key, value) :: rest => (key.erased, value.erased) :: entriesErased rest

end

end Expr

/-- The text of a token: strings are quoted, with a backslash before quotes and backslashes. -/
def Token.written : Token → List Char
  | text s => '"' :: Text.addSlashes s.toList ++ ['"']
  | t => t.spelling.toList

/-- The text of tokens, each behind a space. -/
def Token.allWritten (ts : List Token) : List Char := ts.flatMap fun t => ' ' :: t.written

/-- A template that consists of the output of an expression. -/
def Expr.written (e : Expr) : String :=
  String.ofList ("\x7b\x7b".toList ++ Token.allWritten e.tokens ++ ' ' :: "\x7d\x7d".toList)

end Templating
