import Templating.Template.Reading

/-!
# Template sets

A template together with all templates it refers to, directly or through others. Sources are asked
for one after the other in the order the references are met, each name once and the root's own name
never. A template that only optional references ask for may be missing.
-/

namespace Templating

/-- Gives the source of a named template, nothing if there is none, or fails. -/
abbrev SourceProvider := String → Result (Option String)

/-- A reference from a template, noted with the place of the tag that makes it. -/
structure Reference where
  dependency : Dependency
  origin : String
  line : Nat
  deriving Inhabited

mutual

/-- The references of nodes in reading order: those of a tag before those of its body, its body
before its branches. -/
def nodeReferences (registry : Registry) (origin : String) : List Node → List Reference
  | [] => []
  | .tag name args body branches span :: rest =>
    (match registry.tag? name with
    | some tag => (tag.dependencies args).map fun d => ⟨d, origin, span.start.line⟩
    | none => []) ++
      nodeReferences registry origin body ++ branchReferences registry origin branches ++
      nodeReferences registry origin rest
  | .literal .. :: rest => nodeReferences registry origin rest
  | .output .. :: rest => nodeReferences registry origin rest

/-- The references of branches in reading order. -/
def branchReferences (registry : Registry) (origin : String) : List Branch → List Reference
  | [] => []
  | .mk _ _ body _ :: rest =>
    nodeReferences registry origin body ++ branchReferences registry origin rest

end

/-- The references of a template in reading order. -/
def Template.references (registry : Registry) (t : Template) : List Reference :=
  nodeReferences registry t.name t.nodes

/-- A template and the templates loaded for it. -/
structure TemplateSet where
  root : Template
  loaded : List Template
  deriving Inhabited

namespace TemplateSet

/-- Look up a template by name. -/
def get? (s : TemplateSet) (name : String) : Option Template :=
  if name = s.root.name then some s.root else s.loaded.find? fun t => t.name == name

/-- The number of templates. -/
def size (s : TemplateSet) : Nat := s.loaded.length + 1

/-- How many references are followed at most. -/
def loadBudget : Nat := Nat.pow 2 62

/-- The error of a template that no source was found for. -/
def notFound (r : Reference) : Error :=
  (Error.ofFault (.templateNotFound r.dependency.name)).locate r.origin r.line

/-- Follow the references in the queue and those of the templates loaded on the way. -/
def follow (registry : Registry) (controls : Controls) (provider : SourceProvider)
    (root : Template) : Nat → List Reference → List Template → List String → Result TemplateSet
  | _, [], loaded, _ => .ok ⟨root, loaded⟩
  | 0, _ :: _, _, _ => fail .nestedTooDeep
  | budget + 1, r :: queue, loaded, missing =>
    let name := r.dependency.name
    if name == root.name || loaded.any (fun t => t.name == name) then
      follow registry controls provider root budget queue loaded missing
    else if missing.contains name then
      if r.dependency.isOptional then
        follow registry controls provider root budget queue loaded missing
      else .error (notFound r)
    else
      match provider name with
      | .error e => .error (e.locate r.origin r.line)
      | .ok none =>
        if r.dependency.isOptional then
          follow registry controls provider root budget queue loaded (name :: missing)
        else .error (notFound r)
      | .ok (some source) =>
        match Template.parse registry controls name source with
        | .error e => .error e
        | .ok t =>
          follow registry controls provider root budget (queue ++ t.references registry)
            (t :: loaded) missing

/-- Parse a template and load everything it refers to. -/
def load (registry : Registry) (controls : Controls) (provider : SourceProvider)
    (name source : String) : Result TemplateSet := do
  let root ← Template.parse registry controls name source
  follow registry controls provider root loadBudget (root.references registry) [] []

end TemplateSet

end Templating
