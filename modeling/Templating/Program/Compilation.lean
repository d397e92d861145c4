import Templating.Program.Expression
import Templating.Inheritance

/-!
# Code of templates

The code of a template is the code of its nodes one after the other. Blocks, parents, includes and
imports continue in other places: the definitions of a block, the nodes of another template, the
macros of another template. Such references are followed through a function that emits the nodes
at the other place, and each level of following has one level less to go.
-/

namespace Templating

namespace Emission

/-- What nodes are emitted in. -/
structure Surroundings where
  registry : Registry
  set : TemplateSet
  /-- The template being emitted, with inheritance applied. -/
  resolved : Resolved
  /-- The blocks being emitted, innermost first, each with the number of its layer. -/
  blocks : List (String × Nat) := []
  /-- The templates being included, innermost first. -/
  including : List String := []

/-- A filter of this name is known. -/
def Surroundings.isFilter (env : Surroundings) (name : String) : Bool := env.registry.hasFilter name

/-- Emits nodes that stand at another place. -/
abbrev Elsewhere := Surroundings → List Node → Emission Fragment

/-- The code of nodes from several templates. -/
def nodesOf (elsewhere : Elsewhere) (env : Surroundings) : List (String × Node) → Emission Fragment
  | [] => return []
  | (file, node) :: rest => do
    let first ← inFile file (elsewhere env [node])
    return first ++ (← nodesOf elsewhere env rest)

/-- One definition of a block, if there is one of that number. -/
def blockLayer (elsewhere : Elsewhere) (env : Surroundings) (name : String) (index : Nat) :
    Emission Fragment :=
  match (env.resolved.layers name)[index]? with
  | none => return []
  | some layer =>
    inFile layer.template (elsewhere { env with blocks := (name, index) :: env.blocks } layer.body)

/-- The next less derived definition of the innermost block. -/
def parentLayer (elsewhere : Elsewhere) (env : Surroundings) : Emission Fragment := do
  match env.blocks with
  | (name, index) :: _ => blockLayer elsewhere env name (index + 1)
  | [] => fail (.parentOutsideBlock (← currentLine))

/-- The frame an included template runs in: over a given value, over nothing, or within the current
frames. -/
def includeFrame (env : Surroundings) (value? : Option Expr) (isolated : Bool) :
    Emission Fragment := do
  match value? with
  | some e =>
    let code ← expr env.isFilter e
    return code ++ (← op (.pushContext isolated))
  | none =>
    if isolated then
      let code ← op (.loadConst .null)
      return code ++ (← op (.pushContext true))
    else op .pushFrame

/-- Another template at this place. -/
def insertTemplate (elsewhere : Elsewhere) (env : Surroundings) (name : String)
    (value? : Option Expr) (isolated isOptional : Bool) : Emission Fragment := do
  match env.set.get? name with
  | none => if isOptional then return [] else fail (.templateNotFound name)
  | some template =>
    if env.including.contains template.name then
      fail (.includesItself name (← currentLine))
    else
      let resolved ← (env.set.resolve template : Result Resolved)
      let frame ← includeFrame env value? isolated
      let inner := { env with resolved, blocks := [], including := template.name :: env.including }
      let body ← nodesOf elsewhere inner resolved.body
      return frame ++ body ++ (← op .popFrame)

/-- The name and the parameters of a macro. -/
def macroSignature? (args : List TagArg) : Option (String × List String) :=
  match args with
  | .ident name :: params => (params.mapM TagArg.asIdent?).map fun params => (name, params)
  | _ => none

/-- Emit the top-level macros among the nodes and return their names and numbers. -/
def macrosOf (elsewhere : Elsewhere) (env : Surroundings) :
    List Node → Emission (List (String × Nat))
  | [] => return []
  | .tag tagName args body _ span :: rest => do
    if tagName = "macro" then
      setLine span.start.line
      match macroSignature? args with
      | some (name, params) =>
        let id ← placed span.start.line (macroCode name params (elsewhere env body))
        return (name, id) :: (← macrosOf elsewhere env rest)
      | none => macrosOf elsewhere env rest
    else macrosOf elsewhere env rest
  | .literal .. :: rest => macrosOf elsewhere env rest
  | .output .. :: rest => macrosOf elsewhere env rest

/-- Callables under their names. -/
def macroPairs : List (String × Nat) → Emission Fragment
  | [] => return []
  | (name, id) :: rest => do
    let key ← op (.loadConst (.ofString name))
    let value ← op (.buildMacro id)
    return key ++ value ++ (← macroPairs rest)

/-- The macros of another template as a map. -/
def importTemplate (elsewhere : Elsewhere) (env : Surroundings) (name : String) :
    Emission Fragment := do
  match env.set.get? name with
  | none => fail (.templateNotFound name)
  | some template =>
    let (count, pairs) ← inFile template.name do
      let imported ← macrosOf elsewhere env template.nodes
      shareMacros imported
      return (imported.length, ← macroPairs imported)
    return pairs ++ (← op (.buildMap count))

/-- The plan of an added tag, with the code of its body and its branches. -/
def plan (isFilter : String → Bool) (body : Emission Fragment) (branch : Nat → Emission Fragment) :
    List TagStep → Emission Fragment
  | [] => return []
  | step :: rest => do
    let first ← match step with
      | .raw text => if text = "" then pure [] else op (.emitRaw text)
      | .expr e => expr isFilter e
      | .constant v => op (.loadConst v)
      | .write => op .emit
      | .store name => op (.storeLocal name)
      | .filter name args => applyFilter isFilter name args
      | .pushScope => op .pushFrame
      | .popScope => op .popFrame
      | .beginCapture => op .beginCapture
      | .endCapture => op .endCapture
      | .body => body
      | .branch index => branch index
      | .choose ifTrue ifFalse => do
        let test ← reserve
        let yes ← plan isFilter body branch ifTrue
        let skip ← reserve
        let onFalse ← here
        let no ← plan isFilter body branch ifFalse
        pure (test (.jumpIfFalse onFalse) :: yes ++ skip (.jump (← here)) :: no)
    return first ++ (← plan isFilter body branch rest)

/-- The fault of arguments a built-in tag cannot have. -/
def badArguments (name : String) : Emission Fragment := do
  fail (.badTagArguments name (← currentLine))

/-- The loop variables: the value is on top of the key. -/
def loopTargets? : List TagArg → Option (Emission Fragment)
  | [.ident value] => some do
    let store ← op (.storeLocal value)
    return store ++ (← op .discardTop)
  | [.ident key, .ident value] => some do
    let store ← op (.storeLocal value)
    return store ++ (← op (.storeLocal key))
  | _ => none

/-- A loop over the value of an expression. -/
def loop (isFilter : String → Bool) (args : List TagArg) (body : Emission Fragment)
    (other? : Option (Emission Fragment)) : Emission Fragment := do
  match args.getLast?, loopTargets? args.dropLast with
  | some (.expr subject), some targets =>
    let subject ← expr isFilter subject
    let push ← op .pushLoop
    let start ← here
    let iterate ← reserve
    let stores ← targets
    let body ← body
    let back ← op (.jump start)
    let stop ← here
    let code := subject ++ push ++ iterate (.iterate stop) :: stores ++ body ++ back
    match other? with
    | none => return code ++ (← op .popFrame)
    | some other =>
      let missed ← op .pushDidNotIterate
      let pop ← op .popFrame
      let test ← reserve
      let other ← other
      return code ++ missed ++ pop ++ test (.jumpIfFalse (← here)) :: other
  | _, _ => badArguments "for"

/-- An assignment. -/
def assignment (isFilter : String → Bool) : List TagArg → Emission Fragment
  | [.ident name, .expr e] => do
    let code ← expr isFilter e
    return code ++ (← op (.storeLocal name))
  | _ => badArguments "set"

/-- A filter applied to collected output. The output was escaped while it was collected. -/
def filtered (isFilter : String → Bool) (args : List TagArg) (body : Emission Fragment) :
    Emission Fragment := do
  match args with
  | .ident name :: params =>
    let start ← op .beginCapture
    let body ← body
    let stop ← op .endCapture
    match params.mapM TagArg.asExpr? with
    | none => badArguments "filter"
    | some params =>
      let params ← exprs isFilter params
      let call ← applyFilter isFilter name (args.length - 1)
      let off ← op (.loadConst (.bool false))
      let push ← op .pushAutoEscape
      let write ← op .emit
      let pop ← op .popAutoEscape
      return start ++ body ++ stop ++ params ++ call ++ off ++ push ++ write ++ pop
  | _ => badArguments "filter"

/-- Whether a constant turns escaping on. -/
def turnsOn (v : Value) : Bool :=
  match v.asText? with
  | some s => s != "false"
  | none => v.isTrue

/-- Output with escaping turned on or off. -/
def escaping (args : List TagArg) (body : Emission Fragment) : Emission Fragment := do
  match (args.head?.bind TagArg.asExpr?).bind Expr.asConst? with
  | some v =>
    let mode ← op (.loadConst (.bool (turnsOn v)))
    let push ← op .pushAutoEscape
    let body ← body
    return mode ++ push ++ body ++ (← op .popAutoEscape)
  | none => badArguments "autoescape"

/-- The first branch that stands behind an `else` branch. -/
def behindElse? : List Branch → Option Branch
  | [] => none
  | b :: rest => if b.label = "else" then rest.head? else behindElse? rest

mutual

/-- The code of a node. -/
def node (elsewhere : Elsewhere) (env : Surroundings) : Node → Emission Fragment
  | .literal text span => do
    setLine span.start.line
    if text = "" then return [] else op (.emitRaw text)
  | .output subject filters span => do
    setLine span.start.line
    placed span.start.line (output env.isFilter subject filters)
  | .tag name args body branches span => do
    setLine span.start.line
    placed span.start.line do
      if env.registry.isCustomTag name then useTag name
      match env.registry.tag? name with
      | none => fail (.unknownTag name span.start.line)
      | some (.custom tag) =>
        let steps ← (tag.plan
          { name, args, line := span.start.line
            branches := branches.map fun b => (b.label, b.args) } : Result (List TagStep))
        plan env.isFilter (nodes elsewhere env body) (branchAt elsewhere env branches) steps
      | some (.builtin .inherit) => return []
      | some (.builtin .block) =>
        match args.head?.bind TagArg.asIdent? with
        | some block => blockLayer elsewhere env block 0
        | none => badArguments "block"
      | some (.builtin .parent) => parentLayer elsewhere env
      | some (.builtin .cond) =>
        match behindElse? branches with
        | some b => fail (.labelAfterElse b.label b.line)
        | none =>
          match args.head?.bind TagArg.asExpr? with
          | none => badArguments "if"
          | some condition =>
            let test ← expr env.isFilter condition
            let jump ← reserve
            let body ← nodes elsewhere env body
            let (rest, onFalse) ← alternatives elsewhere env branches
            return test ++ jump (.jumpIfFalse onFalse) :: body ++ rest
      | some (.builtin .loop) =>
        match branches with
        | [] => loop env.isFilter args (nodes elsewhere env body) none
        | [_] =>
          loop env.isFilter args (nodes elsewhere env body)
            (some (branchAt elsewhere env branches 0))
        | _ :: b :: _ => fail (.repeatedElse b.line)
      | some (.builtin .assign) => assignment env.isFilter args
      | some (.builtin .insert) =>
        match args.head?.bind TagArg.asText? with
        | some template =>
          insertTemplate elsewhere env template (args.findSome? TagArg.asExpr?)
            (args.any (TagArg.isFlag "only")) (args.any (TagArg.isFlag "ignore missing"))
        | none => badArguments "include"
      | some (.builtin .importMacros) =>
        match args with
        | [.text template, .ident alias_] =>
          let code ← importTemplate elsewhere env template
          return code ++ (← op (.storeLocal alias_))
        | _ => badArguments "import"
      | some (.builtin .defineMacro) =>
        match macroSignature? args with
        | some (macroName, params) =>
          let id ← macroCode macroName params (nodes elsewhere env body)
          let build ← op (.buildMacro id)
          return build ++ (← op (.storeLocal macroName))
        | none => badArguments "macro"
      | some (.builtin .filter) => filtered env.isFilter args (nodes elsewhere env body)
      | some (.builtin .escaping) => escaping args (nodes elsewhere env body)

/-- The code of nodes one after the other. -/
def nodes (elsewhere : Elsewhere) (env : Surroundings) : List Node → Emission Fragment
  | [] => return []
  | n :: rest => do
    let first ← node elsewhere env n
    return first ++ (← nodes elsewhere env rest)

/-- The code of the branches of a condition, and where it is entered when the condition before it
is false. Each branch begins with the jump that ends what comes before it. -/
def alternatives (elsewhere : Elsewhere) (env : Surroundings) :
    List Branch → Emission (Fragment × Nat)
  | [] => return ([], ← here)
  | .mk _ args body span :: rest => do
    setLine span.start.line
    let skip ← reserve
    let entry ← here
    match args.head?.bind TagArg.asExpr? with
    | some condition =>
      let test ← expr env.isFilter condition
      let jump ← reserve
      let body ← nodes elsewhere env body
      let (code, onFalse) ← alternatives elsewhere env rest
      return (skip (.jump (← here)) :: test ++ jump (.jumpIfFalse onFalse) :: body ++ code, entry)
    | none =>
      let body ← nodes elsewhere env body
      let (code, _) ← alternatives elsewhere env rest
      return (skip (.jump (← here)) :: body ++ code, entry)

/-- The code of one branch. -/
def branchAt (elsewhere : Elsewhere) (env : Surroundings) : List Branch → Nat → Emission Fragment
  | [], _ => return []
  | .mk _ _ body _ :: _, 0 => nodes elsewhere env body
  | _ :: rest, index + 1 => branchAt elsewhere env rest index

end

/-- Emits nodes while references nest at most so many levels deep. -/
def atDepth : Nat → Elsewhere
  | 0 => fun _ _ => fail .nestedTooDeep
  | depth + 1 => fun env ns => nodes (atDepth depth) env ns

end Emission

namespace TemplateSet

/-- How deep references nest at most before compilation is given up. References that never end have
no other bound, and no stack is that deep. -/
def referenceBudget : Nat := Nat.pow 2 62

/-- The code of the root template, with references followed in a given way. -/
def emitRoot (s : TemplateSet) (registry : Registry) (elsewhere : Emission.Elsewhere) :
    Emission Fragment :=
  Emission.inFile s.root.name do
    let resolved ← (s.resolve s.root : Result Resolved)
    let env : Emission.Surroundings :=
      { registry, set := s, resolved, including := [s.root.name] }
    Emission.nodesOf elsewhere env resolved.body

/-- Compile the root template, with references followed in a given way. -/
def compileThrough (s : TemplateSet) (registry : Registry) (autoescape : Bool) (name : String)
    (elsewhere : Emission.Elsewhere) : Result Program := do
  let (code, state) ← s.emitRoot registry elsewhere {}
  return {
    name, autoescape
    files := state.files
    filters := state.filters
    tags := state.tags
    main := Code.ofFragment code
    macros := state.macros }

/-- Compile the root template, with references nesting at most so deep. -/
def compileAt (s : TemplateSet) (registry : Registry) (autoescape : Bool) (name : String)
    (depth : Nat) : Result Program :=
  s.compileThrough registry autoescape name (Emission.atDepth depth)

/-- Compile the root template. -/
def compile (s : TemplateSet) (registry : Registry) (autoescape : Bool) (name : String) :
    Result Program :=
  s.compileAt registry autoescape name referenceBudget

end TemplateSet

end Templating
