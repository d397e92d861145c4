import Templating.Proofs.Template.Everywhere

/-!
# The lines on which things start

Nodes, labels, expressions and filters start on lines of their template. These are the lines that
code is said to come from, and on which errors of running code are reported.
-/

namespace Templating

namespace Expr

mutual

/-- The lines on which the expression and those inside of it start. -/
def lines : Expr → List Nat
  | .var _ span => [span.start.line]
  | .const _ span => [span.start.line]
  | .unary _ operand span => span.start.line :: operand.lines
  | .binary _ left right span => span.start.line :: (left.lines ++ right.lines)
  | .attr subject _ span => span.start.line :: subject.lines
  | .item subject key span => span.start.line :: (subject.lines ++ key.lines)
  | .filter _ subject args span => span.start.line :: (subject.lines ++ linesOfAll args)
  | .call callee args span => span.start.line :: (callee.lines ++ linesOfAll args)
  | .list items span => span.start.line :: linesOfAll items
  | .map entries span => span.start.line :: linesOfEntries entries

/-- The lines on which expressions and those inside of them start. -/
def linesOfAll : List Expr → List Nat
  | [] => []
  | e :: rest => e.lines ++ linesOfAll rest

/-- The lines on which the keys and values of a map literal and what is inside of them start. -/
def linesOfEntries : List (Expr × Expr) → List Nat
  | [] => []
  | (key, value) :: rest => key.lines ++ value.lines ++ linesOfEntries rest

end

end Expr

/-- The lines on which the filter and its arguments start. -/
def FilterCall.lines (f : FilterCall) : List Nat := f.span.start.line :: Expr.linesOfAll f.args

/-- The lines on which the expression that is the argument starts, and those inside of it. -/
def TagArg.lines : TagArg → List Nat
  | .expr e => e.lines
  | _ => []

/-- The lines on which the label and its arguments start. -/
def Branch.lines (b : Branch) : List Nat := b.line :: b.args.flatMap TagArg.lines

/-- The lines on which the node, its labels and its expressions start, without the nodes inside. -/
def Node.lines : Node → List Nat
  | .literal _ span => [span.start.line]
  | .output subject filters span =>
    span.start.line :: (subject.lines ++ filters.flatMap FilterCall.lines)
  | .tag _ args _ branches span =>
    span.start.line :: (args.flatMap TagArg.lines ++ branches.flatMap Branch.lines)

/-- The lines on which a node, a label, an expression or a filter of the template starts. -/
def Template.startLines (t : Template) : List Nat := (Node.everywhere t.nodes).flatMap Node.lines

/-- A line on which something starts in a template of that name. -/
def TemplateSet.StartsOn (s : TemplateSet) (file : String) (line : Nat) : Prop :=
  ∃ t ∈ s.templates, t.name = file ∧ line ∈ t.startLines

end Templating
