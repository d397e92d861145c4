import Templating.Registry

/-!
# Reading templates

A template is a sequence of literal text, output points and tags. A tag with a body goes on until
its end tag; its labels split the body into branches. Arguments and bodies of tags nest as deep as
expressions may.
-/

namespace Templating

namespace Parser

/-- How deep templates may nest. -/
def maxDepth : Nat := 150

/-- Move the filters around an expression into a chain, innermost first. -/
def unchain (filters : List FilterCall) : Expr → Expr × List FilterCall
  | .filter name subject args span => unchain (⟨name, args, span⟩ :: filters) subject
  | e => (e, filters)

/-- Read an output point behind its opening delimiter. -/
def output (expr : Parser Expr) (start : Span) : Parser Node := do
  let e ← expr
  expect isOutputEnd
  let (subject, filters) := unchain [] e
  return .output subject filters (← upToHere start)

/-- The fault of a tag that is not known: an end tag out of place, or an unknown name. -/
def unknownTag (registry : Registry) (opened : List (String × Nat)) (name : String) (line : Nat) :
    Fault :=
  match Text.stripStart? "end".toList name.toList with
  | some begun =>
    if (registry.tag? (String.ofList begun)).isSome then .strayEndTag name line opened.head?
    else .unknownTag name line
  | none => .unknownTag name line

/-- What ends a sequence of nodes: the name of an end tag or a label, and where it stands. -/
abbrev Ending := Option (String × Span)

/-- A sequence of nodes up to the end of the template or a tag whose name ends it. That name is
read, what follows it is not. -/
def sequence (expr : Parser Expr) (tag : String → Span → Parser Node) (isEnd : String → Bool) :
    Parser (List Node × Ending) :=
  iterate
    (fun (nodes : List Node) => do
      match ← next? with
      | none => return .inr (nodes.reverse, none)
      | some (.data text, span) => return .inl (.literal text span :: nodes)
      | some (.outputStart, span) => return .inl ((← output expr span) :: nodes)
      | some (.tagStart, span) =>
        match ← require with
        | (.ident name, nameSpan) =>
          if isEnd name then return .inr (nodes.reverse, some (name, nameSpan))
          else return .inl ((← tag name span) :: nodes)
        | (token, at_) => fail (misplaced token at_)
      | some (token, span) => fail (misplaced token span))
    []

/-- The body of a tag and its branches, up to and with its end tag. -/
def tagBody (sequence : (String → Bool) → Parser (List Node × Ending)) (expr : Parser Expr)
    (name : String) (shape : TagShape) (line : Nat) : Parser (List Node × List Branch) := do
  let endName := "end" ++ name
  let isEnd (word : String) : Bool := word == endName || shape.labels.contains word
  let (body, ending) ← sequence isEnd
  let branches ← iterate
    (fun (state : List Branch × Ending) => do
      let (branches, ending) := state
      match ending with
      | none => fail (.missingEndTag endName name line)
      | some (label, span) =>
        if label = endName then
          -- the end tag may repeat a name
          let _ ← skipIf fun t => match t with
            | .ident _ => true
            | _ => false
          expect isTagEnd
          return .inr branches
        else
          let args ← shape.labelArguments label expr
          expect isTagEnd
          let (nodes, next) ← sequence isEnd
          return .inl (.mk label args nodes span :: branches, next))
    ([], ending)
  return (body, branches.reverse)

/-- A tag behind its name, with so many levels of nesting left; `nodes` reads a body one level
further down. -/
def tag (registry : Registry) (opened : List (String × Nat))
    (below? : Option (Parser Expr ×
      (List (String × Nat) → (String → Bool) → Parser (List Node × Ending))))
    (name : String) (start : Span) : Parser Node := do
  match registry.tag? name with
  | none => fail (unknownTag registry opened name start.start.line)
  | some definition =>
    match below? with
    | none => tooDeep
    | some (expr, nodes) =>
      let shape := definition.shape
      let args ← shape.arguments expr
      expect isTagEnd
      let (body, branches) ←
        if shape.hasBody then
          tagBody (nodes ((name, start.start.line) :: opened)) expr name shape start.start.line
        else pure ([], [])
      return .tag name args body branches (← upToHere start)

/-- A sequence of nodes with so many levels of nesting left, inside the given open tags. -/
def nodes (registry : Registry) : Nat → List (String × Nat) → (String → Bool) →
    Parser (List Node × Ending)
  | 0, opened, isEnd =>
    sequence (exprAt registry.hasFilter 0) (tag registry opened none) isEnd
  | depth + 1, opened, isEnd =>
    sequence (exprAt registry.hasFilter (depth + 1))
      (tag registry opened (some (exprAt registry.hasFilter depth, nodes registry depth))) isEnd

/-- A whole template. -/
def template (registry : Registry) : Parser (List Node) := do
  let (nodes, ending) ← nodes registry maxDepth [] fun _ => false
  match ending with
  | none => return nodes
  | some (name, span) => fail (misplaced (.ident name) span)

end Parser

/-- Read a template. -/
def Template.parse (registry : Registry) (controls : Controls) (name source : String) :
    Result Template := do
  return ⟨name, ← (Parser.template registry).run name (lex controls source)⟩

end Templating
