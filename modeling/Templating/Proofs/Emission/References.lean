import Templating.Proofs.Template.Everywhere
import Templating.Program.Compilation

/-!
# References to templates

Nodes continue at other templates where a tag includes or imports one. What happens there is known
beforehand: an included template is emitted with its name noted, an imported one gives the bodies of
its macros. If two ways to follow references agree on these they emit the same code for the nodes.
-/

namespace Templating

/-- The tag, if the node is one, does not stand for a definition of a block. -/
def Node.IsWhole (registry : Registry) : Node → Prop
  | .tag name .. => registry.tag? name ≠ some (.builtin .block) ∧
    registry.tag? name ≠ some (.builtin .parent)
  | _ => True

/-- The name of the template that the tag imports, if the node is one. -/
def Node.importedName? (registry : Registry) : Node → Option String
  | .tag name [.text template, .ident _] .. =>
    match registry.tag? name with
    | some (.builtin .importMacros) => some template
    | _ => none
  | _ => none

/-- The bodies of the top-level macros among the nodes. -/
def macroBodies : List Node → List (List Node)
  | [] => []
  | .tag name _ body .. :: rest =>
    if name = "macro" then body :: macroBodies rest else macroBodies rest
  | .literal .. :: rest => macroBodies rest
  | .output .. :: rest => macroBodies rest

namespace Emission

open Node (Throughout ThroughoutBranches)

variable {E E' : Elsewhere} {env : Surroundings}

/-- The surroundings of an included template. -/
def Surroundings.inside (env : Surroundings) (template : Template) (resolved : Resolved) :
    Surroundings :=
  { env with resolved, blocks := [], including := template.name :: env.including }

/-- Two ways to follow references agree on every template that may be included. -/
def AgreeOnIncluded (E E' : Elsewhere) (env : Surroundings) : Prop :=
  ∀ name template resolved, env.set.get? name = some template →
    template.name ∉ env.including → env.set.resolve template = .ok resolved →
      ∀ row ∈ resolved.body, E (env.inside template resolved) [row.2] =
        E' (env.inside template resolved) [row.2]

/-- Two ways to follow references agree on the macros of the template of that name. -/
def AgreeOnImported (E E' : Elsewhere) (env : Surroundings) (name : String) : Prop :=
  ∀ template, env.set.get? name = some template →
    ∀ body ∈ macroBodies template.nodes, E env body = E' env body

/-- What is done with a result that needs no emission matters only if there is one. -/
theorem lift_bind_congr {α β : Type} {r : Result α} {f g : α → Emission β}
    (h : ∀ a, r = .ok a → f a = g a) : (liftM r >>= f) = (liftM r >>= g) := by
  cases r with
  | error e => rfl
  | ok a =>
    funext s
    exact congrFun (h a rfl) s

/-- The code of nodes from several templates. -/
theorem nodesOf_congr {rows : List (String × Node)}
    (h : ∀ row ∈ rows, E env [row.2] = E' env [row.2]) :
    nodesOf E env rows = nodesOf E' env rows := by
  induction rows with
  | nil => rfl
  | cons row rest ih =>
    obtain ⟨hrow, hrest⟩ := List.forall_mem_cons.mp h
    rw [nodesOf, nodesOf, hrow, ih hrest]

/-- An included template. -/
theorem insertTemplate_congr (h : AgreeOnIncluded E E' env) (name : String) (value? : Option Expr)
    (isolated isOptional : Bool) :
    insertTemplate E env name value? isolated isOptional =
      insertTemplate E' env name value? isolated isOptional := by
  unfold insertTemplate
  cases htemplate : env.set.get? name with
  | none => rfl
  | some template =>
    simp only
    split
    · rfl
    · next hfresh =>
      have hfresh : template.name ∉ env.including := by simpa using hfresh
      refine lift_bind_congr fun resolved hresolved => ?_
      have hbody := nodesOf_congr (h name template resolved htemplate hfresh hresolved)
      simp only [Surroundings.inside] at hbody
      rw [hbody]

/-- The macros among the nodes of another template. -/
theorem macrosOf_congr {ns : List Node} (h : ∀ body ∈ macroBodies ns, E env body = E' env body) :
    macrosOf E env ns = macrosOf E' env ns := by
  induction ns with
  | nil => rfl
  | cons n rest ih =>
    cases n with
    | literal text span => exact ih h
    | output subject filters span => exact ih h
    | tag name args body branches span =>
      rw [macrosOf, macrosOf]
      rw [macroBodies] at h
      split
      · next hname =>
        rw [if_pos hname] at h
        obtain ⟨hbody, hrest⟩ := List.forall_mem_cons.mp h
        rw [hbody, ih hrest]
      · next hname =>
        rw [if_neg hname] at h
        exact ih h

/-- An imported template. -/
theorem importTemplate_congr {name : String} (h : AgreeOnImported E E' env name) :
    importTemplate E env name = importTemplate E' env name := by
  unfold importTemplate
  cases htemplate : env.set.get? name with
  | none => rfl
  | some template => simp only [macrosOf_congr (h template htemplate)]

/-- The node does not stand for a definition of a block, and two ways to follow references agree on
the template that it imports. -/
def AgreeOn (E E' : Elsewhere) (env : Surroundings) (n : Node) : Prop :=
  n.IsWhole env.registry ∧ ∀ name ∈ n.importedName? env.registry, AgreeOnImported E E' env name

mutual

/-- The code of a node is that of its references and what is around them. -/
theorem node_congr (hincluded : AgreeOnIncluded E E' env) : ∀ {n : Node},
    Throughout (AgreeOn E E' env) [n] → node E env n = node E' env n
  | .literal text span, _ => by rw [node, node]
  | .output subject filters span, _ => by rw [node, node]
  | .tag name args body branches span, hn => by
    obtain ⟨⟨⟨hblock, hparent⟩, himported⟩, hbody, hbranches⟩ := Node.throughout_tag.mp hn
    have hnodes := nodes_congr hincluded hbody
    have hbranch : branchAt E env branches = branchAt E' env branches :=
      funext fun index => branchAt_congr hincluded index hbranches
    have halternatives := alternatives_congr hincluded hbranches
    simp only [node, hnodes, hbranch, halternatives, insertTemplate_congr hincluded]
    cases htag : env.registry.tag? name with
    | none => rfl
    | some tag =>
      cases tag with
      | custom tag => rfl
      | builtin tag =>
        cases tag with
        | block => exact absurd htag hblock
        | parent => exact absurd htag hparent
        | importMacros =>
          have himport : ∀ template alias_, args = [.text template, .ident alias_] →
              importTemplate E env template = importTemplate E' env template := by
            rintro template alias_ rfl
            exact importTemplate_congr (himported template (by simp [Node.importedName?, htag]))
          simp only
          split <;> split
          · rw [himport _ _ rfl]
          · rfl
          · rw [himport _ _ rfl]
          · rfl
        | _ => rfl

/-- The code of nodes is that of their references and what is around them. -/
theorem nodes_congr (hincluded : AgreeOnIncluded E E' env) : ∀ {ns : List Node},
    Throughout (AgreeOn E E' env) ns → nodes E env ns = nodes E' env ns
  | [], _ => by rw [nodes, nodes]
  | n :: rest, hns => by
    obtain ⟨hn, hrest⟩ := Node.throughout_cons.mp hns
    rw [nodes, nodes, node_congr hincluded hn, nodes_congr hincluded hrest]

/-- The code of the branches of a condition is that of their references and what is around them. -/
theorem alternatives_congr (hincluded : AgreeOnIncluded E E' env) : ∀ {branches : List Branch},
    ThroughoutBranches (AgreeOn E E' env) branches →
      alternatives E env branches = alternatives E' env branches
  | [], _ => by rw [alternatives, alternatives]
  | .mk label args body span :: rest, hbranches => by
    obtain ⟨hbody, hrest⟩ := Node.throughoutBranches_cons.mp hbranches
    rw [alternatives, alternatives, nodes_congr hincluded hbody, alternatives_congr hincluded hrest]

/-- The code of one branch is that of its references and what is around them. -/
theorem branchAt_congr (hincluded : AgreeOnIncluded E E' env) :
    ∀ {branches : List Branch} (index : Nat), ThroughoutBranches (AgreeOn E E' env) branches →
      branchAt E env branches index = branchAt E' env branches index
  | [], index, _ => by rw [branchAt, branchAt]
  | .mk label args body span :: rest, index, hbranches => by
    obtain ⟨hbody, hrest⟩ := Node.throughoutBranches_cons.mp hbranches
    cases index with
    | zero => rw [branchAt, branchAt, nodes_congr hincluded hbody]
    | succ index => rw [branchAt, branchAt, branchAt_congr hincluded index hrest]

end

end Emission

end Templating
