import Templating.Program.Emission
import Templating.Template.Tree

/-!
# Code of expressions

The code of an expression leaves its value on top of the stack. Operands are evaluated from left to
right; the right operand of `and` and `or` is skipped when the left one decides, which then is the
result.
-/

namespace Templating

/-- The instruction of an operator that always evaluates both operands. -/
def BinaryOp.instruction : BinaryOp → Instruction
  | eq => .eq
  | ne => .ne
  | lt => .lt
  | le => .le
  | gt => .gt
  | ge => .ge
  | and => .jumpIfFalseOrPop 0
  | or => .jumpIfTrueOrPop 0
  | add => .add
  | sub => .sub
  | mul => .mul
  | div => .div
  | rem => .rem
  | concat => .concat
  | within => .within

/-- The jump of an operator that may skip its right operand. -/
def BinaryOp.shortcut? : BinaryOp → Option (Nat → Instruction)
  | and => some .jumpIfFalseOrPop
  | or => some .jumpIfTrueOrPop
  | _ => none

/-- The instruction of a prefix operator. -/
def UnaryOp.instruction : UnaryOp → Instruction
  | not => .not
  | neg => .neg

namespace Emission

mutual

/-- The code of an expression. -/
def expr (isFilter : String → Bool) : Expr → Emission Fragment
  | .var name span => do
    setLine span.start.line
    op (.lookup name)
  | .const value span => do
    setLine span.start.line
    op (.loadConst value)
  | .unary o operand span => do
    setLine span.start.line
    let code ← expr isFilter operand
    return code ++ (← op o.instruction)
  | .binary o left right span => do
    setLine span.start.line
    let first ← expr isFilter left
    match o.shortcut? with
    | some jump =>
      let place ← reserve
      let second ← expr isFilter right
      return first ++ place (jump (← here)) :: second
    | none =>
      let second ← expr isFilter right
      return first ++ second ++ (← op o.instruction)
  | .attr subject name span => do
    setLine span.start.line
    let code ← expr isFilter subject
    return code ++ (← op (.getAttr name))
  | .item subject key span => do
    setLine span.start.line
    let first ← expr isFilter subject
    let second ← expr isFilter key
    return first ++ second ++ (← op .getItem)
  | .filter name subject args span => do
    setLine span.start.line
    let first ← expr isFilter subject
    let second ← exprs isFilter args
    return first ++ second ++ (← applyFilter isFilter name args.length)
  | .call callee args span => do
    setLine span.start.line
    let first ← expr isFilter callee
    let second ← exprs isFilter args
    return first ++ second ++ (← op (.call args.length))
  | .list items span => do
    setLine span.start.line
    let code ← exprs isFilter items
    return code ++ (← op (.buildList items.length))
  | .map entries span => do
    setLine span.start.line
    let code ← exprEntries isFilter entries
    return code ++ (← op (.buildMap entries.length))

/-- The code of expressions one after the other. -/
def exprs (isFilter : String → Bool) : List Expr → Emission Fragment
  | [] => return []
  | e :: rest => do
    let first ← expr isFilter e
    return first ++ (← exprs isFilter rest)

/-- The code of the keys and values of a map. -/
def exprEntries (isFilter : String → Bool) : List (Expr × Expr) → Emission Fragment
  | [] => return []
  | (key, value) :: rest => do
    let first ← expr isFilter key
    let second ← expr isFilter value
    return first ++ second ++ (← exprEntries isFilter rest)

end

/-- The code of a filter chain: each filter's arguments, then the filter. -/
def filterChain (isFilter : String → Bool) : List FilterCall → Emission Fragment
  | [] => return []
  | f :: rest => do
    setLine f.span.start.line
    let args ← exprs isFilter f.args
    let call ← applyFilter isFilter f.name f.args.length
    return args ++ call ++ (← filterChain isFilter rest)

/-- The code of an output point. -/
def output (isFilter : String → Bool) (subject : Expr) (filters : List FilterCall) :
    Emission Fragment := do
  let first ← expr isFilter subject
  let second ← filterChain isFilter filters
  return first ++ second ++ (← op .emit)

end Emission

end Templating
