import Templating.TemplateSet

/-!
# Inheritance

A template may extend another one, which may extend a third, and so on to a base. What is compiled
then is the base, in which each block stands for its most derived definition; of the derived
templates only blocks and top-level assignments, imports and macros count.
-/

namespace Templating

/-- A definition of a block. -/
structure BlockDef where
  name : String
  line : Nat
  body : List Node
  deriving Inhabited

mutual

/-- The line of the first `extends` tag among the nodes, at any depth. -/
def firstExtends? : List Node → Option Nat
  | [] => none
  | .tag name _ body branches span :: rest =>
    if name = "extends" then some span.start.line
    else
      match firstExtends? body with
      | some line => some line
      | none =>
        match firstExtendsInBranches? branches with
        | some line => some line
        | none => firstExtends? rest
  | .literal .. :: rest => firstExtends? rest
  | .output .. :: rest => firstExtends? rest

/-- The line of the first `extends` tag in the branches. -/
def firstExtendsInBranches? : List Branch → Option Nat
  | [] => none
  | .mk _ _ body _ :: rest =>
    match firstExtends? body with
    | some line => some line
    | none => firstExtendsInBranches? rest

end

mutual

/-- The block definitions among the nodes at any depth, in reading order. -/
def blockDefs : List Node → List BlockDef
  | [] => []
  | .tag name args body branches span :: rest =>
    (if name = "block" then
      match args.head?.bind TagArg.asIdent? with
      | some block => [⟨block, span.start.line, body⟩]
      | none => []
    else []) ++ blockDefs body ++ branchBlockDefs branches ++ blockDefs rest
  | .literal .. :: rest => blockDefs rest
  | .output .. :: rest => blockDefs rest

/-- The block definitions in the branches. -/
def branchBlockDefs : List Branch → List BlockDef
  | [] => []
  | .mk _ _ body _ :: rest => blockDefs body ++ branchBlockDefs rest

end

/-- The first definition whose name was defined before. -/
def firstDuplicate? (seen : List String) : List BlockDef → Option BlockDef
  | [] => none
  | d :: rest => if seen.contains d.name then some d else firstDuplicate? (d.name :: seen) rest

namespace Template

/-- Fail at a line of the template. -/
def failAt {α : Type} (t : Template) (line : Nat) (fault : Fault) : Result α :=
  .error ((Error.ofFault fault).locate t.name line)

/-- The template that the nodes extend and the line of the tag. The tag has to come before
everything but white space, once, and at the top level. `found` is the tag met so far, `content`
says whether anything else was met. -/
def extendsTag? (t : Template) (found : Option (String × Nat)) (content : Bool) :
    List Node → Result (Option (String × Nat))
  | [] => .ok found
  | .tag name args body branches span :: rest =>
    let line := span.start.line
    if name = "extends" then
      if content || found.isSome then t.failAt line (.misplacedExtends line)
      else
        match args.head?.bind TagArg.asText? with
        | some base => extendsTag? t (some (base, line)) content rest
        | none => t.failAt line (.unnamedExtends line)
    else
      match (firstExtends? body).or (firstExtendsInBranches? branches) with
      | some nested => t.failAt nested (.misplacedExtends nested)
      | none => extendsTag? t found true rest
  | .literal text span :: rest =>
    extendsTag? t found (content || !(Node.literal text span).isBlank) rest
  | .output .. :: rest => extendsTag? t found true rest

/-- The template this one extends, and the line that says so. -/
def base? (t : Template) : Result (Option (String × Nat)) := extendsTag? t none false t.nodes

/-- The blocks of the template; a name may be defined once. -/
def blocks (t : Template) : Result (List BlockDef) :=
  let defs := blockDefs t.nodes
  match firstDuplicate? [] defs with
  | some d => t.failAt d.line (.duplicateBlock d.name d.line)
  | none => .ok defs

/-- Tags of derived templates that count although they stand outside of all blocks. -/
def hoisted : List String := ["set", "import", "macro"]

/-- The top-level assignments, imports and macros. -/
def hoistedNodes (t : Template) : List Node :=
  t.nodes.filter fun n =>
    match n with
    | .tag name .. => hoisted.contains name
    | _ => false

end Template

/-- A definition of a block together with the template it comes from. -/
structure BlockLayer where
  template : String
  body : List Node
  deriving Inhabited

/-- A template with its inheritance applied. -/
structure Resolved where
  /-- The nodes to compile, each with the template it comes from. -/
  body : List (String × Node)
  /-- The templates on the way to the base with their blocks, most derived first. -/
  levels : List (String × List BlockDef)
  deriving Inhabited

namespace Resolved

/-- The definitions of a block, most derived first. -/
def layers (r : Resolved) (block : String) : List BlockLayer :=
  r.levels.filterMap fun (template, defs) =>
    (defs.find? fun d => d.name == block).map fun d => ⟨template, d.body⟩

end Resolved

namespace TemplateSet

/-- Follow the extended templates from the last one on the way, which is the head of `chain`. Each
step adds a template of the set that is not on the way yet, so the size of the set bounds the
steps. -/
def chainFrom (s : TemplateSet) : Nat → Template → List Template → Result (List Template)
  | 0, _, _ => fail .nestedTooDeep
  | bound + 1, current, earlier =>
    match current.base? with
    | .error e => .error e
    | .ok none => .ok (current :: earlier).reverse
    | .ok (some (base, line)) =>
      let chain := (current :: earlier).reverse
      if chain.any fun t => t.name == base then
        let circle := (chain.dropWhile fun t => t.name != base).map Template.name ++ [base]
        current.failAt line (.circularExtends circle)
      else
        match s.get? base with
        | some next => chainFrom s bound next (current :: earlier)
        | none => current.failAt line (.templateNotFound base)

/-- The templates from the given one to its base. -/
def chain (s : TemplateSet) (t : Template) : Result (List Template) :=
  chainFrom s (s.size + 1) t []

/-- The nodes of a chain of templates that count: hoisted nodes of the derived ones, those next to
the base first, and all nodes of the base. -/
def chainBody (chain : List Template) : List (String × Node) :=
  match chain.reverse with
  | [] => []
  | base :: derived =>
    (derived.flatMap fun t => t.hoistedNodes.map fun n => (t.name, n)) ++
      base.nodes.map fun n => (base.name, n)

/-- Apply inheritance to a template. -/
def resolve (s : TemplateSet) (t : Template) : Result Resolved := do
  let chain ← s.chain t
  let levels ← chain.mapM fun t => do return (t.name, ← t.blocks)
  return ⟨chainBody chain, levels⟩

end TemplateSet

end Templating
