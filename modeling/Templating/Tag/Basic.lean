import Templating.Template.Grammar

/-!
# Tags

What stands between tag delimiters is handled by a tag. A tag has a shape, which says how its
arguments are read and whether it has a body; the built-in tags are compiled by rules of their own,
and tags that an application adds describe what they compile to as a plan of a few kinds of steps.
-/

namespace Templating

/-- A template another template needs. -/
structure Dependency where
  name : String
  /-- It is no error if the template is missing. -/
  isOptional : Bool := false
  deriving Repr, DecidableEq, Inhabited

/-- How a tag is read. -/
structure TagShape where
  /-- The tag has a body, closed by `end` and its name. -/
  hasBody : Bool := false
  /-- Words that begin a new branch of the body. -/
  labels : List String := []
  /-- Read the arguments, given the reader of expressions. -/
  arguments : Parser Expr → Parser (List TagArg)
  /-- Read the arguments of a label. -/
  labelArguments : String → Parser Expr → Parser (List TagArg) := fun _ _ => do
    Parser.expectTagEnd
    return []

/-- The tags every engine knows. -/
inductive BuiltinTag where
  | inherit
  | block
  | parent
  | cond
  | loop
  | assign
  | insert
  | importMacros
  | defineMacro
  | filter
  | escaping
  deriving Repr, DecidableEq, Inhabited

/-- One step of the plan of an added tag. -/
inductive TagStep where
  /-- Write literal text. -/
  | raw (text : String)
  /-- Evaluate an expression. -/
  | expr (e : Expr)
  /-- Load a constant. -/
  | constant (v : Value)
  /-- Write the value just computed, escaped as necessary. -/
  | write
  /-- Store the value just computed as a variable of the current scope. -/
  | store (name : String)
  /-- Apply a filter to the value below so many arguments. -/
  | filter (name : String) (args : Nat)
  | pushScope
  | popScope
  /-- Collect output instead of writing it. -/
  | beginCapture
  /-- Stop collecting; the collected text is the value just computed. -/
  | endCapture
  /-- The body of the tag. -/
  | body
  /-- One branch of the tag, by its number. -/
  | branch (index : Nat)
  /-- Go on with the first plan if the value just computed is true, with the second otherwise. -/
  | choose (ifTrue : List TagStep) (ifFalse : List TagStep)
  deriving Inhabited

/-- A use of an added tag, as its plan sees it. -/
structure TagUse where
  name : String
  args : List TagArg
  /-- Labels and label arguments of the branches. -/
  branches : List (String × List TagArg)
  line : Nat
  deriving Inhabited

/-- A tag that an application adds. -/
structure CustomTag extends TagShape where
  /-- The templates a use of the tag needs. -/
  dependencies : List TagArg → List Dependency := fun _ => []
  /-- What a use of the tag compiles to. -/
  plan : TagUse → Result (List TagStep)

/-- A tag known to an engine. -/
inductive Tag where
  | builtin (tag : BuiltinTag)
  | custom (tag : CustomTag)

namespace BuiltinTag

/-- The name of a built-in tag. -/
def name : BuiltinTag → String
  | inherit => "extends"
  | block => "block"
  | parent => "parent"
  | cond => "if"
  | loop => "for"
  | assign => "set"
  | insert => "include"
  | importMacros => "import"
  | defineMacro => "macro"
  | filter => "filter"
  | escaping => "autoescape"

/-- All built-in tags. -/
def all : List BuiltinTag :=
  [inherit, block, parent, cond, loop, assign, insert, importMacros, defineMacro, filter, escaping]

open Templating.Parser in
/-- Read an expression as the only argument. -/
def oneExpression (expr : Parser Expr) : Parser (List TagArg) := do
  return [.expr (← expr)]

open Templating.Parser in
/-- One or two targets, `in`, and what is iterated. -/
def loopArguments (expr : Parser Expr) : Parser (List TagArg) := do
  let first ← ident
  let targets ←
    if ← skipPunctuation "," then pure [TagArg.ident first, .ident (← ident)]
    else pure [TagArg.ident first]
  expectWord "in"
  let subject ← expr
  return targets ++ [.expr subject]

open Templating.Parser in
/-- A name, `=` and an expression. -/
def setArguments (expr : Parser Expr) : Parser (List TagArg) := do
  let name ← ident
  expectPunctuation "="
  return [.ident name, .expr (← expr)]

open Templating.Parser in
/-- A template name and options in any order: `with` and an expression, `only`, `ignore missing`. -/
def includeArguments (expr : Parser Expr) : Parser (List TagArg) := do
  let name ← text
  let options ← iterate
    (fun (options : List TagArg) => do
      if ← skipWord "with" then return .inl (.expr (← expr) :: options)
      else if ← skipWord "only" then return .inl (.flag "only" :: options)
      else if ← skipWord "ignore" then
        expectWord "missing"
        return .inl (.flag "ignore missing" :: options)
      else return .inr options)
    []
  return .text name :: options.reverse

open Templating.Parser in
/-- A template name, `as`, and a name. -/
def importArguments : Parser (List TagArg) := do
  let name ← text
  expectWord "as"
  return [.text name, .ident (← ident)]

open Templating.Parser in
/-- Items up to a closing parenthesis, separated by commas, none before the parenthesis. -/
def strictList {α : Type} (item : Parser α) : Parser (List α) := do
  let items ← iterate
    (fun (items : List α) => do
      if ← skipPunctuation ")" then return .inr items
      else
        if !items.isEmpty then expectPunctuation ","
        return .inl ((← item) :: items))
    []
  return items.reverse

open Templating.Parser in
/-- A name and parameter names in parentheses. -/
def macroArguments : Parser (List TagArg) := do
  let name ← ident
  expectPunctuation "("
  let params ← strictList ident
  return .ident name :: params.map .ident

open Templating.Parser in
/-- A filter name and optional arguments in parentheses. -/
def filterArguments (expr : Parser Expr) : Parser (List TagArg) := do
  let name ← ident
  if ← skipPunctuation "(" then
    let args ← strictList expr
    return .ident name :: args.map .expr
  else return [.ident name]

open Templating.Parser in
/-- A constant. -/
def autoescapeArguments (expr : Parser Expr) : Parser (List TagArg) := do
  let line ← currentLine
  let e ← expr
  match e.asConst? with
  | some _ => return [.expr e]
  | none => Parser.fail (.notConstant line)

/-- How a built-in tag is read. -/
def shape : BuiltinTag → TagShape
  | inherit => { arguments := fun _ => do return [.text (← Parser.text)] }
  | block => { hasBody := true, arguments := fun _ => do return [.ident (← Parser.ident)] }
  | parent => { arguments := fun _ => return [] }
  | cond =>
    { hasBody := true
      labels := ["elseif", "elif", "else"]
      arguments := oneExpression
      labelArguments := fun label expr =>
        if label = "else" then do
          Parser.expectTagEnd
          return []
        else oneExpression expr }
  | loop => { hasBody := true, labels := ["else"], arguments := loopArguments }
  | assign => { arguments := setArguments }
  | insert => { arguments := includeArguments }
  | importMacros => { arguments := fun _ => importArguments }
  | defineMacro => { hasBody := true, arguments := fun _ => macroArguments }
  | filter => { hasBody := true, arguments := filterArguments }
  | escaping => { hasBody := true, arguments := autoescapeArguments }

/-- The templates a use of a built-in tag needs. -/
def dependencies (tag : BuiltinTag) (args : List TagArg) : List Dependency :=
  match tag with
  | inherit => args.filterMap fun a => a.asText?.map fun name => { name }
  | insert =>
    match args.head?.bind TagArg.asText? with
    | some name => [{ name, isOptional := args.any (TagArg.isFlag "ignore missing") }]
    | none => []
  | importMacros =>
    match args.head?.bind TagArg.asText? with
    | some name => [{ name }]
    | none => []
  | _ => []

end BuiltinTag

namespace Tag

/-- How a tag is read. -/
def shape : Tag → TagShape
  | builtin tag => tag.shape
  | custom tag => tag.toTagShape

/-- The templates a use of a tag needs. -/
def dependencies (tag : Tag) (args : List TagArg) : List Dependency :=
  match tag with
  | builtin tag => tag.dependencies args
  | custom tag => tag.dependencies args

end Tag

end Templating
