import Templating.Program.Compilation

/-!
# Nodes detached from the surrounding blocks

What nodes are emitted as depends on the template that they are emitted in through its blocks: a
block is emitted by the definition it has there, and a parent by the next one of the block that is
being emitted. Nodes without parents, whose blocks are not defined there, are emitted alike
whatever the blocks of the template; an inclusion has blocks of its own, and so an import depends
on its surroundings only if the imported macros do.
-/

namespace Templating

section

variable (registry : Registry) (isDefined imports : String → Prop)

mutual

/-- There is no parent in the node, its blocks are not among the defined ones, and what it imports
is of certain names. What is inside of a block without a definition is not emitted. -/
def Node.IsDetached : Node → Prop
  | .tag name args body branches _ =>
    match registry.tag? name with
    | some (.builtin .parent) => False
    | some (.builtin .block) => ∀ b ∈ args.head?.bind TagArg.asIdent?, ¬ isDefined b
    | some (.builtin .importMacros) => ∀ t ∈ args.head?.bind TagArg.asText?, imports t
    | _ => AllDetached body ∧ BranchesDetached branches
  | _ => True

/-- All nodes are detached. -/
def Node.AllDetached : List Node → Prop
  | [] => True
  | n :: rest => n.IsDetached ∧ AllDetached rest

/-- The nodes of all branches are detached. -/
def Node.BranchesDetached : List Branch → Prop
  | [] => True
  | .mk _ _ body _ :: rest => AllDetached body ∧ BranchesDetached rest

end

end

/-- The bodies of the top-level macros among the nodes are detached. -/
def Node.MacrosDetached (registry : Registry) (isDefined imports : String → Prop)
    (ns : List Node) : Prop :=
  ∀ args body branches span, .tag "macro" args body branches span ∈ ns →
    AllDetached registry isDefined imports body

namespace Emission

open Node (AllDetached BranchesDetached MacrosDetached)

variable {isDefined imports : String → Prop}

/-- Two surroundings with the same templates, in neither of which other blocks are defined than
certain ones, and in which the templates of certain names have detached macros. -/
structure Surroundings.DifferInBlocks (isDefined imports : String → Prop)
    (env env' : Surroundings) : Prop where
  registry : env'.registry = env.registry
  set : env'.set = env.set
  including : env'.including = env.including
  layers : ∀ b, ¬ isDefined b → env.resolved.layers b = [] ∧ env'.resolved.layers b = []
  imported : ∀ name t, imports name → env.set.get? name = some t →
    MacrosDetached env.registry isDefined imports t.nodes

/-- The same filters are known. -/
theorem Surroundings.DifferInBlocks.isFilter {env env' : Surroundings}
    (h : env.DifferInBlocks isDefined imports env') : env'.isFilter = env.isFilter := by
  funext name
  rw [Surroundings.isFilter, Surroundings.isFilter, h.registry]

/-- Elsewhere, detached nodes are emitted alike in such surroundings. -/
def Elsewhere.Detaches (isDefined imports : String → Prop) (E : Elsewhere) : Prop :=
  ∀ {env env' : Surroundings} {ns : List Node}, env.DifferInBlocks isDefined imports env' →
    AllDetached env.registry isDefined imports ns → E env ns = E env' ns

variable {E : Elsewhere} {env env' : Surroundings}

section

variable (hE : E.Detaches isDefined imports) (henv : env.DifferInBlocks isDefined imports env')

include hE henv

/-- Detached macros are emitted alike. -/
theorem macrosOf_detached {ns : List Node}
    (hns : MacrosDetached env.registry isDefined imports ns) :
    macrosOf E env ns = macrosOf E env' ns := by
  induction ns with
  | nil => rfl
  | cons n rest ih =>
    have ih := ih fun args body branches span hn => hns args body branches span (.tail n hn)
    cases n with
    | literal text span => rw [macrosOf, macrosOf, ih]
    | output subject filters span => rw [macrosOf, macrosOf, ih]
    | tag name args body branches span =>
      rw [macrosOf, macrosOf]
      split
      · next hname =>
        subst hname
        rw [ih, hE henv (hns args body branches span List.mem_cons_self)]
      · exact ih

/-- The import of a template with detached macros is emitted alike. -/
theorem importTemplate_detached {name : String} (hname : imports name) :
    importTemplate E env name = importTemplate E env' name := by
  unfold importTemplate
  rw [henv.set]
  cases hget : env.set.get? name with
  | none => rfl
  | some template => simp only [macrosOf_detached hE henv (henv.imported name template hname hget)]

omit hE in
/-- The inclusion of a template has blocks of its own. -/
theorem insertTemplate_detached (name : String) (value? : Option Expr)
    (isolated isOptional : Bool) :
    insertTemplate E env name value? isolated isOptional =
      insertTemplate E env' name value? isolated isOptional := by
  obtain ⟨registry, set, resolved, blocks, including⟩ := env
  obtain ⟨registry', set', resolved', blocks', including'⟩ := env'
  obtain ⟨rfl, rfl, rfl, -, -⟩ := henv
  rfl

end

mutual

/-- A detached node is emitted alike. -/
theorem node_detached (hE : E.Detaches isDefined imports)
    (henv : env.DifferInBlocks isDefined imports env') : ∀ {n : Node},
    n.IsDetached env.registry isDefined imports → node E env n = node E env' n
  | .literal .., _ => by rw [node, node]
  | .output .., _ => by rw [node, node, henv.isFilter]
  | .tag name args body branches span, h => by
    rw [Node.IsDetached] at h
    simp only [node, henv.registry, henv.isFilter]
    cases htag : env.registry.tag? name with
    | none => rfl
    | some tag =>
      rw [htag] at h
      cases tag with
      | custom tag =>
        obtain ⟨hbody, hbranches⟩ := h
        have hbranch : branchAt E env branches = branchAt E env' branches :=
          funext fun index => branchAt_detached hE henv index hbranches
        rw [nodes_detached hE henv hbody, hbranch]
      | builtin tag =>
        cases tag with
        | inherit => rfl
        | parent => exact h.elim
        | block =>
          simp only
          cases hblock : args.head?.bind TagArg.asIdent? with
          | none => rfl
          | some b =>
            obtain ⟨hone, hother⟩ := henv.layers b (h b hblock)
            simp only [blockLayer, hone, hother, List.getElem?_nil]
        | importMacros =>
          have himport : ∀ t ∈ args.head?.bind TagArg.asText?,
              importTemplate E env t = importTemplate E env' t := fun t ht =>
            importTemplate_detached hE henv (h t ht)
          simp only
          split
          all_goals
            split
            · rw [himport _ rfl]
            · rfl
        | insert => simp only [insertTemplate_detached henv]
        | assign => rfl
        | cond =>
          obtain ⟨hbody, hbranches⟩ := h
          simp only [nodes_detached hE henv hbody, alternatives_detached hE henv hbranches]
        | loop =>
          obtain ⟨hbody, hbranches⟩ := h
          simp only [nodes_detached hE henv hbody, branchAt_detached hE henv _ hbranches]
        | _ =>
          obtain ⟨hbody, hbranches⟩ := h
          simp only [nodes_detached hE henv hbody]

/-- Detached nodes are emitted alike. -/
theorem nodes_detached (hE : E.Detaches isDefined imports)
    (henv : env.DifferInBlocks isDefined imports env') : ∀ {ns : List Node},
    AllDetached env.registry isDefined imports ns → nodes E env ns = nodes E env' ns
  | [], _ => by rw [nodes, nodes]
  | n :: rest, ⟨hn, hrest⟩ => by
    rw [nodes, nodes, node_detached hE henv hn, nodes_detached hE henv hrest]

/-- The branches of a condition are emitted alike. -/
theorem alternatives_detached (hE : E.Detaches isDefined imports)
    (henv : env.DifferInBlocks isDefined imports env') : ∀ {branches : List Branch},
    BranchesDetached env.registry isDefined imports branches →
      alternatives E env branches = alternatives E env' branches
  | [], _ => by rw [alternatives, alternatives]
  | .mk _ args body span :: rest, ⟨hbody, hrest⟩ => by
    rw [alternatives, alternatives, henv.isFilter, nodes_detached hE henv hbody,
      alternatives_detached hE henv hrest]

/-- A branch is emitted alike. -/
theorem branchAt_detached (hE : E.Detaches isDefined imports)
    (henv : env.DifferInBlocks isDefined imports env') : ∀ {branches : List Branch} (index : Nat),
    BranchesDetached env.registry isDefined imports branches →
      branchAt E env branches index = branchAt E env' branches index
  | [], _, _ => by rw [branchAt, branchAt]
  | .mk _ _ body _ :: _, 0, ⟨hbody, _⟩ => by
    rw [branchAt, branchAt, nodes_detached hE henv hbody]
  | .mk .. :: rest, index + 1, ⟨_, hrest⟩ => by
    rw [branchAt, branchAt, branchAt_detached hE henv index hrest]

end

/-- On every level of references detached nodes are emitted alike. -/
theorem atDepth_detaches (isDefined imports : String → Prop) (depth : Nat) :
    Elsewhere.Detaches isDefined imports (atDepth depth) := by
  induction depth with
  | zero => exact fun _ _ => rfl
  | succ depth ih =>
    intro env env' ns henv hns
    rw [atDepth]
    exact nodes_detached ih henv hns

end Emission

end Templating
