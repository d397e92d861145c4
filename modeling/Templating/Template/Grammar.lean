import Templating.Template.Parser

/-!
# Grammar of expressions

Operators from loosest to tightest: `or`, `and`, prefix `not`, comparisons and `in`, `+` and `-`,
`~`, `*` `/` `%`, prefix `-` and `!`, filters, and attributes, items and calls. All binary
operators group to the left.

Expressions, operands and prefix operators nest at most so many levels deep; each level of the
parser is built from the level below it, and the lowest level refuses to go on.
-/

namespace Templating

namespace Parser

/-- Fail because templates may not nest deeper. -/
def tooDeep {α : Type} : Parser α := do
  fail (.tooDeep (← currentLine))

/-- The token opens an argument list. -/
def isParenOpen : Token → Bool
  | .parenOpen => true
  | _ => false

/-- The token closes an argument list. -/
def isParenClose : Token → Bool
  | .parenClose => true
  | _ => false

/-- The token closes a list or an item. -/
def isBracketClose : Token → Bool
  | .bracketClose => true
  | _ => false

/-- The token closes a map. -/
def isBraceClose : Token → Bool
  | .braceClose => true
  | _ => false

/-- The token separates items. -/
def isComma : Token → Bool
  | .comma => true
  | _ => false

/-- The token separates a key from its value. -/
def isColon : Token → Bool
  | .colon => true
  | _ => false

/-- The token introduces a filter. -/
def isPipe : Token → Bool
  | .pipe => true
  | _ => false

/-- The token is a plus sign. -/
def isPlus : Token → Bool
  | .plus => true
  | _ => false

/-- Operands joined by operators of one level, grouped to the left. -/
def leftChain (op? : Token → Option BinaryOp) (operand : Parser Expr) : Parser Expr := do
  let span ← currentSpan
  let first ← operand
  iterate
    (fun left => do
      match (← peek?).bind fun t => op? t.1 with
      | none => return .inr left
      | some op =>
        advance
        let right ← operand
        return .inl (.binary op left right (← upToHere span)))
    first

/-- Alternatives. -/
def orOp? : Token → Option BinaryOp
  | .or => some .or
  | .ident "or" => some .or
  | _ => none

/-- Conjunctions. -/
def andOp? : Token → Option BinaryOp
  | .and => some .and
  | .ident "and" => some .and
  | _ => none

/-- Comparisons. -/
def compareOp? : Token → Option BinaryOp
  | .eq => some .eq
  | .ne => some .ne
  | .lt => some .lt
  | .ident "lt" => some .lt
  | .le => some .le
  | .ident "lte" => some .le
  | .gt => some .gt
  | .ident "gt" => some .gt
  | .ge => some .ge
  | .ident "gte" => some .ge
  | .ident "in" => some .within
  | _ => none

/-- Sums. -/
def sumOp? : Token → Option BinaryOp
  | .plus => some .add
  | .minus => some .sub
  | _ => none

/-- Concatenations. -/
def concatOp? : Token → Option BinaryOp
  | .tilde => some .concat
  | _ => none

/-- Products. -/
def productOp? : Token → Option BinaryOp
  | .star => some .mul
  | .slash => some .div
  | .percent => some .rem
  | _ => none

/-- Any number of prefix `not` words before an operand. -/
def negation (operand : Parser Expr) : Parser Expr := do
  let spans ← iterate
    (fun (spans : List Span) => do
      let span ← currentSpan
      if ← skipWord "not" then return .inl (span :: spans) else return .inr spans)
    []
  let subject ← operand
  let spans ← spans.mapM upToHere
  return spans.foldl (fun e span => .unary .not e span) subject

/-- From the loosest operators down to products, over the given operands. -/
def operators (operand : Parser Expr) : Parser Expr :=
  leftChain orOp? <| leftChain andOp? <| negation <| leftChain compareOp? <|
    leftChain sumOp? <| leftChain concatOp? <| leftChain productOp? operand

/-- A prefix `-` or `!` before an operand of the level below, or a plain operand. A prefix `+` has
no effect. -/
def prefixed (below operand : Parser Expr) : Parser Expr := do
  iterate
    (fun (_ : Unit) => do
      if ← skipIf isPlus then return .inl () else return .inr ())
    ()
  let span ← currentSpan
  match (← peek?).map Prod.fst with
  | some .minus =>
    advance
    let subject ← below
    return .unary .neg subject (← upToHere span)
  | some .bang =>
    advance
    let subject ← below
    return .unary .not subject (← upToHere span)
  | _ => operand

/-- Items separated by commas up to a closing token; a comma may stand before the closing token. -/
def commaList {α : Type} (closes : Token → Bool) (item : Parser α) : Parser (List α) := do
  let items ← iterate
    (fun (items : List α) => do
      if ← skipIf closes then return .inr items
      else if items.isEmpty then return .inl [← item]
      else
        expect isComma
        if ← skipIf closes then return .inr items
        else return .inl ((← item) :: items))
    []
  return items.reverse

/-- Arguments in parentheses. -/
def arguments (expr : Parser Expr) : Parser (List Expr) := do
  expect isParenOpen
  commaList isParenClose expr

/-- An operand followed by attributes, items and calls. -/
def postfixed (primary expr : Parser Expr) : Parser Expr := do
  let span ← currentSpan
  let first ← primary
  iterate
    (fun subject => do
      let here ← currentSpan
      match (← peek?).map Prod.fst with
      | some .dot =>
        advance
        match ← require with
        | (.ident name, _) => return .inl (.attr subject name (← upToHere span))
        | (.int index, at_) =>
          return .inl (.item subject (.const (.int index) at_) (← upToHere span))
        | (token, at_) => fail (misplaced token at_)
      | some .bracketOpen =>
        advance
        let key ← expr
        expect isBracketClose
        return .inl (.item subject key (← upToHere span))
      | some .parenOpen =>
        let args ← arguments expr
        return .inl (.call subject args (← upToHere here))
      | _ => return .inr subject)
    first

/-- An operand followed by filters. A filter has to be known when it is read. -/
def filtered (isFilter : String → Bool) (operand expr : Parser Expr) : Parser Expr := do
  let span ← currentSpan
  let first ← operand
  iterate
    (fun subject => do
      if ← skipIf isPipe then
        let (name, at_) ← do
          match ← require with
          | (.ident name, at_) => pure (name, at_)
          | (token, at_) => fail (misplaced token at_)
        if isFilter name then
          let hasArgs ← do
            match ← peek? with
            | some (token, _) => pure (isParenOpen token)
            | none => pure false
          let args ← if hasArgs then arguments expr else pure []
          return .inl (.filter name subject args (← upToHere span))
        else fail (.unknownFilter name at_.start.line)
      else return .inr subject)
    first

/-- String literals that follow each other are one string. -/
def moreText (first : String) : Parser String :=
  iterate
    (fun (value : String) => do
      match ← peek? with
      | some (.text more, _) =>
        advance
        return .inl (value ++ more)
      | _ => return .inr value)
    first

/-- One entry of a map. A bare word as key stands for itself. -/
def mapEntry (primary expr : Parser Expr) : Parser (Expr × Expr) := do
  let key ← do
    match ← peek? with
    | some (.ident name, at_) =>
      advance
      pure (.const (.ofString name) at_)
    | _ => primary
  expect isColon
  let value ← expr
  return (key, value)

/-- A literal, a variable, a list, a map or an expression in parentheses. -/
def operand (primary expr : Parser Expr) : Parser Expr := do
  let (token, span) ← require
  match token with
  | .ident "true" => return .const (.bool true) (← upToHere span)
  | .ident "false" => return .const (.bool false) (← upToHere span)
  | .ident "null" => return .const .null (← upToHere span)
  | .ident "none" => return .const .null (← upToHere span)
  | .ident name => return .var name span
  | .text value =>
    let value ← moreText value
    return .const (.ofString value) (← upToHere span)
  | .int value => return .const (.int value) (← upToHere span)
  | .float value => return .const (.float value) (← upToHere span)
  | .parenOpen =>
    let e ← expr
    expect isParenClose
    return e
  | .bracketOpen =>
    let items ← commaList isBracketClose expr
    return .list items (← upToHere span)
  | .braceOpen =>
    let entries ← commaList isBraceClose (mapEntry primary expr)
    return .map entries (← upToHere span)
  | other => fail (misplaced other span)

/-- The parsers of one level of nesting. -/
structure Level where
  expr : Parser Expr
  prefixed : Parser Expr
  primary : Parser Expr

/-- The parsers with so many levels of nesting left. -/
def level (isFilter : String → Bool) : Nat → Level
  | 0 =>
    { expr := tooDeep
      prefixed := prefixed tooDeep (filtered isFilter (postfixed tooDeep tooDeep) tooDeep)
      primary := tooDeep }
  | depth + 1 =>
    let below := level isFilter depth
    let expr := operators below.prefixed
    let primary := operand below.primary below.expr
    { expr := expr
      prefixed := prefixed below.prefixed (filtered isFilter (postfixed primary expr) expr)
      primary := primary }

/-- An expression with so many levels of nesting left. -/
def exprAt (isFilter : String → Bool) (depth : Nat) : Parser Expr := (level isFilter depth).expr

end Parser

end Templating
