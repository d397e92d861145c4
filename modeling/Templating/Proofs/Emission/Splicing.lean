import Templating.Proofs.Emission.Agreement
import Templating.Proofs.Template.Everywhere

/-!
# Emission of spliced blocks

Nodes that neither include nor import templates continue in other places only through blocks and
parents. Where they go from there is decided by the innermost block alone: neither the blocks around
it nor the state of emission matter.
-/

namespace Templating

/-- The tag, if the node is one, neither includes nor imports a template. -/
def Node.StaysInChain (registry : Registry) : Node → Prop
  | .tag name .. => registry.tag? name ≠ some (.builtin .insert) ∧
    registry.tag? name ≠ some (.builtin .importMacros)
  | _ => True

namespace Emission

variable {refusal : Fault} {same : Prop} {E E' : Elsewhere} {env : Surroundings}
  {blocks blocks' : List (String × Nat)}

/-- Nodes that neither include nor import templates. -/
def StayInChain (registry : Registry) : List Node → Prop :=
  Node.Throughout (Node.StaysInChain registry)

/-- The definitions of blocks are emitted alike, within two lists of blocks that are being emitted
already. -/
def Elsewhere.FollowsInto (refusal : Fault) (same : Prop) (E E' : Elsewhere) (env : Surroundings)
    (blocks blocks' : List (String × Nat)) : Prop :=
  ∀ ⦃block : String × Nat⦄ ⦃layer : BlockLayer⦄,
    (env.resolved.layers block.1)[block.2]? = some layer →
      Follows refusal same (E { env with blocks := block :: blocks } layer.body)
        (E' { env with blocks := block :: blocks' } layer.body)

/-- The definitions of all blocks neither include nor import templates. -/
def Surroundings.StaysInChain (env : Surroundings) : Prop :=
  ∀ block, ∀ layer ∈ env.resolved.layers block, StayInChain env.registry layer.body

/-- A definition of a block. -/
theorem blockLayer_follows (he : E.FollowsInto refusal same E' env blocks blocks') (name : String)
    (index : Nat) :
    Follows refusal same (blockLayer E { env with blocks } name index)
      (blockLayer E' { env with blocks := blocks' } name index) := by
  unfold blockLayer
  cases hlayer : (env.resolved.layers name)[index]? with
  | none => exact .pure fun _ => rfl
  | some layer => exact .inFile (@he (name, index) layer hlayer)

/-- The next less derived definition depends on the innermost block only. -/
theorem parentLayer_follows (hrefusal : ¬ same → refusal = .nestedTooDeep)
    (hhead : blocks'.head? = blocks.head?)
    (he : E.FollowsInto refusal same E' env blocks blocks') :
    Follows refusal same (parentLayer E { env with blocks })
      (parentLayer E' { env with blocks := blocks' }) := by
  unfold parentLayer
  cases blocks with
  | nil =>
    cases blocks' with
    | nil => exact .failAt hrefusal fun _ => nofun
    | cons block rest => simp at hhead
  | cons block rest =>
    cases blocks' with
    | nil => simp at hhead
    | cons block' rest' =>
      obtain rfl : block' = block := Option.some.inj hhead
      exact blockLayer_follows he block'.1 (block'.2 + 1)

/-- Noting the use of an added tag first. -/
theorem noted_follows {α : Type} {isCustom : Bool} {name : String} {x y : Emission α}
    (h : Follows refusal same x y) :
    Follows refusal same (if isCustom = true then useTag name >>= fun _ => x else x)
      (if isCustom = true then useTag name >>= fun _ => y else y) := by
  split
  · exact Follows.useTag.bind fun _ _ _ => h
  · exact h

mutual

/-- A node that stays in its chain. -/
theorem node_follows (hrefusal : ¬ same → refusal = .nestedTooDeep)
    (hhead : blocks'.head? = blocks.head?)
    (he : E.FollowsInto refusal same E' env blocks blocks') : ∀ {n : Node},
    StayInChain env.registry [n] → Follows refusal same (node E { env with blocks } n)
      (node E' { env with blocks := blocks' } n)
  | .literal text span, _ => by
    rw [node, node]
    refine Follows.setLine.bind fun _ _ _ => ?_
    split
    · exact .pure fun _ => rfl
    · exact .op fun _ => rfl
  | .output subject filters span, _ => by
    rw [node, node]
    exact Follows.setLine.bind fun _ _ _ => .placed ((follows_congruence hrefusal _).output
      (Expr.loads_true _) fun _ _ => Expr.allLoad_true _)
  | .tag name args body branches span, hn => by
    obtain ⟨⟨hinsert, himport⟩, hbody, hbranches⟩ := Node.throughout_tag.mp hn
    have hnodes := nodes_follows hrefusal hhead he hbody
    have hbranch := fun index => branchAt_follows hrefusal hhead he index hbranches
    have hcode := follows_congruence hrefusal env.isFilter
    simp only [node]
    refine Follows.setLine.bind fun _ _ _ => .placed (noted_follows ?_)
    cases htag : env.registry.tag? name with
    | none => exact .fail
    | some tag =>
      cases tag with
      | custom tag =>
    exact .lift_bind fun steps _ => hcode.plan (fun _ => trivial) hnodes hbranch steps
      | builtin tag =>
        cases tag with
        | inherit => exact .pure fun _ => rfl
        | block =>
          cases args.head?.bind TagArg.asIdent? with
          | none => exact badArguments_follows hrefusal _
          | some block => exact blockLayer_follows he block 0
        | parent => exact parentLayer_follows hrefusal hhead he
        | cond =>
          cases behindElse? branches with
          | some b => exact .fail
          | none =>
            cases args.head?.bind TagArg.asExpr? with
            | none => exact badArguments_follows hrefusal _
            | some condition =>
              refine (hcode.expr condition.loads_true).bind fun _ _ htest => ?_
              refine Follows.reserve.bind fun _ _ hjump => hnodes.bind fun _ _ hyes => ?_
              refine (alternatives_follows hrefusal hhead he hbranches).bind fun _ _ hmore => ?_
              refine .pure fun hsame => ?_
              rw [htest hsame, hjump hsame, hyes hsame, hmore hsame]
        | loop =>
          match branches with
          | [] => exact hcode.loop (argsLoad_true _) hnodes .none
          | [_] => exact hcode.loop (argsLoad_true _) hnodes (.some (hbranch 0))
          | _ :: _ :: _ => exact .fail
        | assign => exact hcode.assignment (argsLoad_true _)
        | insert => exact absurd htag hinsert
        | importMacros => exact absurd htag himport
        | defineMacro =>
          cases macroSignature? args with
          | none => exact badArguments_follows hrefusal _
          | some signature =>
            refine (Follows.macroCode hnodes).bind fun _ _ hid => ?_
            refine (Follows.op fun hsame => by rw [hid hsame]).bind fun _ _ hbuild => ?_
            exact .behind hbuild (.op fun _ => rfl)
        | filter => exact hcode.filtered (argsLoad_true _) trivial hnodes
        | escaping => exact hcode.escaping (fun _ => trivial) hnodes

/-- Nodes that stay in their chain. -/
theorem nodes_follows (hrefusal : ¬ same → refusal = .nestedTooDeep)
    (hhead : blocks'.head? = blocks.head?)
    (he : E.FollowsInto refusal same E' env blocks blocks') : ∀ {ns : List Node},
    StayInChain env.registry ns → Follows refusal same (nodes E { env with blocks } ns)
      (nodes E' { env with blocks := blocks' } ns)
  | [], _ => by
    rw [nodes, nodes]
    exact .pure fun _ => rfl
  | n :: rest, hns => by
    obtain ⟨hn, hrest⟩ := Node.throughout_cons.mp hns
    rw [nodes, nodes]
    exact (node_follows hrefusal hhead he hn).bind fun _ _ hfirst =>
      .behind hfirst (nodes_follows hrefusal hhead he hrest)

/-- The branches of a condition. -/
theorem alternatives_follows (hrefusal : ¬ same → refusal = .nestedTooDeep)
    (hhead : blocks'.head? = blocks.head?)
    (he : E.FollowsInto refusal same E' env blocks blocks') : ∀ {branches : List Branch},
    Node.ThroughoutBranches (Node.StaysInChain env.registry) branches →
      Follows refusal same (alternatives E { env with blocks } branches)
        (alternatives E' { env with blocks := blocks' } branches)
  | [], _ => by
    rw [alternatives, alternatives]
    exact Follows.here.bind fun _ _ hstop => .pure fun hsame => by rw [hstop hsame]
  | .mk label args body span :: rest, hbranches => by
    obtain ⟨hbody, hrest⟩ := Node.throughoutBranches_cons.mp hbranches
    rw [alternatives, alternatives]
    refine Follows.setLine.bind fun _ _ _ => Follows.reserve.bind fun _ _ hskip => ?_
    refine Follows.here.bind fun _ _ hentry => ?_
    cases args.head?.bind TagArg.asExpr? with
    | some condition =>
      refine ((follows_congruence hrefusal _).expr condition.loads_true).bind fun _ _ htest => ?_
      refine Follows.reserve.bind fun _ _ hjump => ?_
      refine (nodes_follows hrefusal hhead he hbody).bind fun _ _ hcode => ?_
      refine (alternatives_follows hrefusal hhead he hrest).bind fun _ _ hmore => ?_
      refine Follows.here.bind fun _ _ hstop => .pure fun hsame => ?_
      rw [hskip hsame, hentry hsame, htest hsame, hjump hsame, hcode hsame, hmore hsame,
        hstop hsame]
    | none =>
      refine (nodes_follows hrefusal hhead he hbody).bind fun _ _ hcode => ?_
      refine (alternatives_follows hrefusal hhead he hrest).bind fun _ _ hmore => ?_
      refine Follows.here.bind fun _ _ hstop => .pure fun hsame => ?_
      rw [hskip hsame, hentry hsame, hcode hsame, hmore hsame, hstop hsame]

/-- One branch. -/
theorem branchAt_follows (hrefusal : ¬ same → refusal = .nestedTooDeep)
    (hhead : blocks'.head? = blocks.head?)
    (he : E.FollowsInto refusal same E' env blocks blocks') :
    ∀ {branches : List Branch} (index : Nat),
    Node.ThroughoutBranches (Node.StaysInChain env.registry) branches →
      Follows refusal same (branchAt E { env with blocks } branches index)
        (branchAt E' { env with blocks := blocks' } branches index)
  | [], index, _ => by
    rw [branchAt, branchAt]
    exact .pure fun _ => rfl
  | .mk label args body span :: rest, 0, hbranches => by
    rw [branchAt, branchAt]
    exact nodes_follows hrefusal hhead he (Node.throughoutBranches_cons.mp hbranches).1
  | .mk label args body span :: rest, index + 1, hbranches => by
    rw [branchAt, branchAt]
    exact branchAt_follows hrefusal hhead he index (Node.throughoutBranches_cons.mp hbranches).2

end

/-- Nodes from several templates. -/
theorem nodesOf_follows {rows : List (String × Node)}
    (hnodes : ∀ row ∈ rows, Follows refusal same (E env [row.2]) (E' env [row.2])) :
    Follows refusal same (nodesOf E env rows) (nodesOf E' env rows) := by
  induction rows with
  | nil =>
    rw [nodesOf, nodesOf]
    exact .pure fun _ => rfl
  | cons row rest ih =>
    rw [nodesOf, nodesOf]
    refine (Follows.inFile (hnodes row List.mem_cons_self)).bind fun _ _ hfirst => ?_
    exact .behind hfirst (ih fun row hrow => hnodes row (List.mem_cons_of_mem _ hrow))

end Emission

end Templating
