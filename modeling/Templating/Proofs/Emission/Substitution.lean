import Templating.Proofs.Emission.Places
import Templating.Proofs.Emission.Splicing
import Templating.Proofs.Template.Inheritance

/-!
# Emission of substituted blocks

Where a template has a block, its definition is emitted; where the template has the nodes of the
definition instead, the same code is emitted. The induction follows the nodes, with the definitions
that are spliced as a hypothesis; an induction on the levels of splicing discharges it.
-/

namespace Templating

/-- Templates inherit through the built-in tags, and every built-in tag has its own name. -/
structure Registry.KeepsInheritance (r : Registry) : Prop where
  inherit : r.tag? "extends" = some (.builtin .inherit)
  block : r.tag? "block" = some (.builtin .block)
  parent : r.tag? "parent" = some (.builtin .parent)
  name : ∀ {name : String} {t : BuiltinTag}, r.tag? name = some (.builtin t) → t.name = name

/-- The tags that an engine starts with are the built-in ones. -/
theorem Registry.keepsInheritance_initial : Registry.initial.KeepsInheritance where
  inherit := rfl
  block := rfl
  parent := rfl
  name := fun h => by
    obtain ⟨t, heq, hname⟩ := tag?_initial h
    rwa [Tag.builtin.inj heq]

namespace Emission

open Fragment (SameCode)
open Node (Throughout ThroughoutBranches)

/-- One node stands for a list of one. -/
theorem Yields.single {x : Emission Fragment} {E : Elsewhere} {env : Surroundings} {n : Node}
    (h : Yields SameCode x (node E env n)) : Yields SameCode x (nodes E env [n]) := by
  intro s t hst a s' hx
  obtain ⟨b, t', hy, hab, hst'⟩ := h hst hx
  refine ⟨b ++ [], t', ?_, ?_, hst'⟩
  · rw [nodes, nodes]
    exact bind_eq_ok.mpr ⟨b, t', hy, bind_eq_ok.mpr ⟨[], t', rfl, rfl⟩⟩
  · rwa [List.append_nil]

/-- The code of a list of nodes is that of its first part and that of the rest. -/
theorem nodes_append (E : Elsewhere) (env : Surroundings) (first second : List Node) :
    nodes E env (first ++ second) =
      (do let code ← nodes E env first; return code ++ (← nodes E env second)) := by
  induction first with
  | nil => simp [nodes]
  | cons n rest ih =>
    simp only [List.cons_append, nodes, ih, bind_assoc, pure_bind, List.append_assoc]

/-- An `else` branch has nothing behind it, whatever the branches contain. -/
theorem behindElse?_isSome {splice : String × Nat → Option (List Node)}
    {inner? : Option (String × Nat)} {branches branches' : List Branch}
    (h : substituteBranches splice inner? branches = some branches') :
    (behindElse? branches').isSome = (behindElse? branches).isSome := by
  induction branches generalizing branches' with
  | nil =>
    obtain rfl := Option.some.inj h
    rfl
  | cons b rest ih =>
    obtain ⟨label, args, body, span⟩ := b
    obtain ⟨body', more, -, hmore, rfl⟩ := substituteBranches_cons_eq_some.mp h
    have hlength : more.head?.isSome = rest.head?.isSome := by
      cases rest with
      | nil =>
        obtain rfl := Option.some.inj hmore
        rfl
      | cons b rest =>
        obtain ⟨_, _, _, _⟩ := b
        obtain ⟨_, _, -, -, rfl⟩ := substituteBranches_cons_eq_some.mp hmore
        rfl
    rw [behindElse?, behindElse?, Branch.label, Branch.label]
    split
    · exact hlength
    · exact ih hmore

/-- Added tags see the same labels and arguments. -/
theorem map_substituteBranches {splice : String × Nat → Option (List Node)}
    {inner? : Option (String × Nat)} {branches branches' : List Branch}
    (h : substituteBranches splice inner? branches = some branches') :
    (branches'.map fun b => (b.label, b.args)) = branches.map fun b => (b.label, b.args) := by
  induction branches generalizing branches' with
  | nil =>
    obtain rfl := Option.some.inj h
    rfl
  | cons b rest ih =>
    obtain ⟨label, args, body, span⟩ := b
    obtain ⟨body', more, -, hmore, rfl⟩ := substituteBranches_cons_eq_some.mp h
    rw [List.map_cons, List.map_cons, ih hmore]
    rfl

section

variable {E E' : Elsewhere} {env env' : Surroundings} {blocks : List (String × Nat)}
  {splice : String × Nat → Option (List Node)}

/-- A tag that is replaced is a block of that name, or a parent inside of the block. -/
theorem splicePoint?_eq_some {inner? : Option (String × Nat)} {name : String} {args : List TagArg}
    {point : String × Nat} (h : splicePoint? inner? name args = some point) :
    (name = "block" ∧ args.head?.bind TagArg.asIdent? = some point.1 ∧ point.2 = 0) ∨
      (name = "parent" ∧ ∃ index, inner? = some (point.1, index) ∧ point.2 = index + 1) := by
  unfold splicePoint? at h
  split at h
  · next hname =>
    obtain ⟨block, hblock, rfl⟩ := Option.map_eq_some_iff.mp h
    exact .inl ⟨hname, hblock, rfl⟩
  · split at h
    · next hname =>
      obtain ⟨⟨block, index⟩, hinner, rfl⟩ := Option.map_eq_some_iff.mp h
      exact .inr ⟨hname, index, hinner, rfl⟩
    · simp at h

/-- The definitions of blocks yield to the nodes that are spliced in their place. -/
def Elsewhere.YieldsTo (E : Elsewhere) (splice : String × Nat → Option (List Node)) (E' : Elsewhere)
    (env env' : Surroundings) : Prop :=
  ∀ ⦃point : String × Nat⦄ ⦃flat : List Node⦄, splice point = some flat → ∀ blocks,
    Yields SameCode (blockLayer E { env with blocks } point.1 point.2) (nodes E' env' flat)

mutual

/-- A node yields to what it is replaced with. -/
theorem node_yields (hkeeps : env.registry.KeepsInheritance) (henv : env'.registry = env.registry)
    (hsplice : E.YieldsTo splice E' env env') : ∀ {n : Node} {flat : List Node},
      StayInChain env.registry [n] → substituteNode splice blocks.head? n = some flat →
        Yields SameCode (node E { env with blocks } n) (nodes E' env' flat)
  | .literal text span, flat, _, hflat => by
    obtain rfl := Option.some.inj hflat
    refine .single ?_
    rw [node, node]
    refine (Yields.setLine _ _).bind fun _ _ _ => ?_
    split
    · exact .pure rfl
    · exact .op _
  | .output subject filters span, flat, _, hflat => by
    obtain rfl := Option.some.inj hflat
    refine .single ?_
    have hfilter : env'.isFilter = env.isFilter := by
      funext name
      rw [Surroundings.isFilter, Surroundings.isFilter, henv]
    rw [node, node, hfilter]
    exact (Yields.setLine _ _).bind fun _ _ _ => .placed ((yields_congruence _).output
      subject.loads_true fun _ _ => Expr.allLoad_true _)
  | .tag name args body branches span, flat, hn, hflat => by
    obtain ⟨⟨hinsert, himport⟩, hbody, hbranches⟩ := Node.throughout_tag.mp hn
    cases hpoint : splicePoint? blocks.head? name args with
    | some point =>
      rw [substituteNode, hpoint] at hflat
      have hlayer := hsplice hflat blocks
      simp only [node]
      refine .after_setLine (.of_placed (.after_useTag ?_))
      rcases splicePoint?_eq_some hpoint with ⟨rfl, hargs, hindex⟩ | ⟨rfl, index, hhead, hindex⟩
      · have htag : env.registry.tag? "block" = some (.builtin .block) := hkeeps.block
        rw [hindex] at hlayer
        simpa only [htag, hargs] using hlayer
      · have htag : env.registry.tag? "parent" = some (.builtin .parent) := hkeeps.parent
        obtain ⟨rest, rfl⟩ := List.head?_eq_some_iff.mp hhead
        rw [hindex] at hlayer
        simpa only [htag, parentLayer] using hlayer
    | none =>
      obtain ⟨body', branches', hbody', hbranches', rfl⟩ :=
        (substituteNode_tag_eq_some hpoint).mp hflat
      have hnodes := nodes_yields hkeeps henv hsplice hbody hbody'
      have hbranch := fun index =>
        branchAt_yields hkeeps henv hsplice index hbranches hbranches'
      have hfilter : env'.isFilter = env.isFilter := by
        funext name
        rw [Surroundings.isFilter, Surroundings.isFilter, henv]
      have hcode := yields_congruence env.isFilter
      refine .single ?_
      simp only [node, hfilter, henv, map_substituteBranches hbranches']
      refine (Yields.setLine _ _).bind fun _ _ _ => .placed (.noted ?_)
      cases htag : env.registry.tag? name with
      | none => exact .fail _ _
      | some tag =>
        cases tag with
        | custom tag =>
    exact .lift_bind fun steps => hcode.plan (fun _ => trivial) hnodes hbranch steps
        | builtin tag =>
          have hname := hkeeps.name htag
          cases tag with
          | inherit => exact .pure rfl
          | block =>
            -- a block that is not replaced names no block
            obtain rfl : "block" = name := hname
            have hargs : args.head?.bind TagArg.asIdent? = none := by
              simpa [splicePoint?] using hpoint
            simp only [hargs]
            exact .failAt _ _
          | parent =>
            -- a parent that is not replaced stands outside of all blocks
            obtain rfl : "parent" = name := hname
            have hhead : blocks = [] := by simpa [splicePoint?] using hpoint
            subst hhead
            exact .failAt _ _
          | cond =>
            cases helse : behindElse? branches with
            | some b => exact .fail _ _
            | none =>
              have helse' : behindElse? branches' = none := by
                simpa [helse] using behindElse?_isSome hbranches'
              simp only [helse']
              cases args.head?.bind TagArg.asExpr? with
              | none => exact .failAt _ _
              | some condition =>
                refine (hcode.expr condition.loads_true).bind fun _ _ htest => ?_
                refine Yields.reserve.bind fun _ _ hjump => hnodes.bind fun _ _ hyes => ?_
                refine (alternatives_yields hkeeps henv hsplice hbranches hbranches').bind
                  fun p q hpq => .pure ?_
                obtain ⟨more, onFalse⟩ := p
                obtain ⟨more', onFalse'⟩ := q
                obtain ⟨hmore, rfl⟩ := hpq
                exact (htest.append (.cons (hjump _) hyes)).append hmore
          | loop =>
            match branches, hbranches' with
            | [], hbranches' =>
              obtain rfl := Option.some.inj hbranches'
              exact hcode.loop (argsLoad_true _) hnodes .none
            | [.mk _ _ _ _], hbranches' =>
              obtain ⟨_, _, -, hrest, rfl⟩ := substituteBranches_cons_eq_some.mp hbranches'
              obtain rfl := Option.some.inj hrest
              exact hcode.loop (argsLoad_true _) hnodes (.some (hbranch 0))
            | _ :: _ :: _, _ => exact .fail _ _
          | assign => exact hcode.assignment (argsLoad_true _)
          | insert => exact absurd htag hinsert
          | importMacros => exact absurd htag himport
          | defineMacro =>
            cases macroSignature? args with
            | none => exact .failAt _ _
            | some signature =>
              refine (Yields.macroCode hnodes).bind fun id _ hid => ?_
              subst hid
              exact (Yields.op _).bind fun _ _ hbuild => .behind hbuild (.op _)
          | filter => exact hcode.filtered (argsLoad_true _) trivial hnodes
          | escaping => exact hcode.escaping (fun _ => trivial) hnodes

/-- Nodes yield to what they are replaced with. -/
theorem nodes_yields (hkeeps : env.registry.KeepsInheritance) (henv : env'.registry = env.registry)
    (hsplice : E.YieldsTo splice E' env env') : ∀ {ns flat : List Node},
      StayInChain env.registry ns → substituteNodes splice blocks.head? ns = some flat →
        Yields SameCode (nodes E { env with blocks } ns) (nodes E' env' flat)
  | [], flat, _, hflat => by
    obtain rfl := Option.some.inj hflat
    rw [nodes, nodes]
    exact .pure rfl
  | n :: rest, flat, hns, hflat => by
    obtain ⟨hn, hrest⟩ := Node.throughout_cons.mp hns
    obtain ⟨first, more, hfirst, hmore, rfl⟩ := substituteNodes_cons_eq_some.mp hflat
    rw [nodes, nodes_append]
    exact (node_yields hkeeps henv hsplice hn hfirst).bind fun _ _ hcode =>
      .behind hcode (nodes_yields hkeeps henv hsplice hrest hmore)

/-- The branches of a condition yield to what they are replaced with, and are entered alike. -/
theorem alternatives_yields (hkeeps : env.registry.KeepsInheritance)
    (henv : env'.registry = env.registry) (hsplice : E.YieldsTo splice E' env env') :
    ∀ {branches flat : List Branch}, ThroughoutBranches (Node.StaysInChain env.registry) branches →
      substituteBranches splice blocks.head? branches = some flat →
        Yields (fun p q => p.1.SameCode q.1 ∧ p.2 = q.2)
          (alternatives E { env with blocks } branches) (alternatives E' env' flat)
  | [], flat, _, hflat => by
    obtain rfl := Option.some.inj hflat
    rw [alternatives, alternatives]
    exact Yields.here.bind fun _ _ hstop => .pure ⟨rfl, hstop⟩
  | .mk label args body span :: rest, flat, hbranches, hflat => by
    obtain ⟨hbody, hrest⟩ := Node.throughoutBranches_cons.mp hbranches
    obtain ⟨body', more, hbody', hmore, rfl⟩ := substituteBranches_cons_eq_some.mp hflat
    have hfilter : env'.isFilter = env.isFilter := by
      funext name
      rw [Surroundings.isFilter, Surroundings.isFilter, henv]
    rw [alternatives, alternatives, hfilter]
    refine (Yields.setLine _ _).bind fun _ _ _ => Yields.reserve.bind fun _ _ hskip => ?_
    refine Yields.here.bind fun entry _ hentry => ?_
    subst hentry
    cases args.head?.bind TagArg.asExpr? with
    | some condition =>
      refine ((yields_congruence _).expr condition.loads_true).bind fun _ _ htest => ?_
      refine Yields.reserve.bind fun _ _ hjump => ?_
      refine (nodes_yields hkeeps henv hsplice hbody hbody').bind fun _ _ hcode => ?_
      refine (alternatives_yields hkeeps henv hsplice hrest hmore).bind fun p q hpq => ?_
      obtain ⟨code, onFalse⟩ := p
      obtain ⟨code', onFalse'⟩ := q
      obtain ⟨hcode', rfl⟩ := hpq
      refine Yields.here.bind fun stop _ hstop => .pure ⟨?_, rfl⟩
      subst hstop
      exact ((SameCode.cons (hskip _) htest).append (.cons (hjump _) hcode)).append hcode'
    | none =>
      refine (nodes_yields hkeeps henv hsplice hbody hbody').bind fun _ _ hcode => ?_
      refine (alternatives_yields hkeeps henv hsplice hrest hmore).bind fun p q hpq => ?_
      refine Yields.here.bind fun stop _ hstop => .pure ⟨?_, rfl⟩
      subst hstop
      exact (SameCode.cons (hskip _) hcode).append hpq.1

/-- One branch yields to what it is replaced with. -/
theorem branchAt_yields (hkeeps : env.registry.KeepsInheritance)
    (henv : env'.registry = env.registry) (hsplice : E.YieldsTo splice E' env env') :
    ∀ {branches flat : List Branch} (index : Nat),
      ThroughoutBranches (Node.StaysInChain env.registry) branches →
        substituteBranches splice blocks.head? branches = some flat →
          Yields SameCode (branchAt E { env with blocks } branches index)
            (branchAt E' env' flat index)
  | [], flat, index, _, hflat => by
    obtain rfl := Option.some.inj hflat
    rw [branchAt, branchAt]
    exact .pure rfl
  | .mk label args body span :: rest, flat, index, hbranches, hflat => by
    obtain ⟨hbody, hrest⟩ := Node.throughoutBranches_cons.mp hbranches
    obtain ⟨body', more, hbody', hmore, rfl⟩ := substituteBranches_cons_eq_some.mp hflat
    cases index with
    | zero =>
      rw [branchAt, branchAt]
      exact nodes_yields hkeeps henv hsplice hbody hbody'
    | succ index =>
      rw [branchAt, branchAt]
      exact branchAt_yields hkeeps henv hsplice index hrest hmore

end

/-- Whatever the depth, definitions of blocks yield to what they are expanded to. -/
theorem expand_yieldsTo (hkeeps : env.registry.KeepsInheritance)
    (henv : env'.registry = env.registry) (hstay : env.StaysInChain) {chain : List Template}
    (hlayers : ∀ block, (env.resolved.layers block).map BlockLayer.body = definitions chain block)
    (levels depth : Nat) : (atDepth depth).YieldsTo (expand chain levels) E' env env' := by
  induction levels generalizing depth with
  | zero => exact fun _ _ hflat => absurd hflat (by simp [expand])
  | succ levels ih =>
    intro point flat hflat blocks
    rw [expand, ← hlayers, List.getElem?_map] at hflat
    rw [blockLayer]
    cases hlayer : (env.resolved.layers point.1)[point.2]? with
    | none =>
      simp only [hlayer, Option.map_none, Option.some.injEq] at hflat
      rw [← hflat, nodes]
      exact .pure rfl
    | some layer =>
      simp only [hlayer, Option.map_some] at hflat
      refine .inFile_left ?_
      cases depth with
      | zero => exact .fail _ _
      | succ depth =>
        exact nodes_yields hkeeps henv (ih depth)
          (hstay point.1 layer (List.mem_of_getElem? hlayer)) hflat

/-- Nodes from several templates yield to what they are replaced with. -/
theorem nodesOf_yields (hkeeps : env.registry.KeepsInheritance)
    (henv : env'.registry = env.registry)
    (hsplice : ∀ depth, (atDepth depth).YieldsTo splice E' env env') (hblocks : env.blocks = [])
    {depth : Nat} {rows : List (String × Node)}
    (hrows : ∀ row ∈ rows, StayInChain env.registry [row.2]) {flat : List Node}
    (hflat : substituteNodes splice none (rows.map Prod.snd) = some flat) :
    Yields SameCode (nodesOf (atDepth depth) env rows) (nodes E' env' flat) := by
  have hsame : { env with blocks := [] } = env := by rw [← hblocks]
  induction rows generalizing flat with
  | nil =>
    obtain rfl := Option.some.inj hflat
    rw [nodesOf, nodes]
    exact .pure rfl
  | cons row rest ih =>
    obtain ⟨hrow, hrest⟩ := List.forall_mem_cons.mp hrows
    obtain ⟨first, more, hfirst, hmore, rfl⟩ := substituteNodes_cons_eq_some.mp hflat
    rw [nodesOf, nodes_append]
    refine (Yields.inFile_left ?_).bind fun _ _ hcode => .behind hcode (ih hrest hmore)
    cases depth with
    | zero => exact .fail _ _
    | succ depth =>
      have hone : substituteNodes splice none [row.2] = some (first ++ []) :=
        substituteNodes_cons_eq_some.mpr ⟨first, [], hfirst, rfl, rfl⟩
      have hyields : Yields SameCode (nodes (atDepth depth) { env with blocks := [] } [row.2])
          (nodes E' env' (first ++ [])) := nodes_yields hkeeps henv (hsplice depth) hrow hone
      rw [List.append_nil, hsame] at hyields
      exact hyields

/-- Nodes without blocks yield to the same nodes from one template. -/
theorem nodes_yields_nodesOf (hkeeps : env.registry.KeepsInheritance) (hblocks : env.blocks = [])
    {depth : Nat} {file : String} {ns : List Node} (hns : StayInChain env.registry ns)
    (hflat : Throughout (Node.OnTag fun name args => splicePoint? none name args = none) ns) :
    Yields SameCode (nodes (atDepth depth) env ns)
      (nodesOf (atDepth (depth + 1)) env (ns.map fun n => (file, n))) := by
  have hsame : { env with blocks := [] } = env := by rw [← hblocks]
  induction ns with
  | nil =>
    rw [nodes, List.map_nil, nodesOf]
    exact .pure rfl
  | cons n rest ih =>
    obtain ⟨hn, hrest⟩ := Node.throughout_cons.mp hns
    obtain ⟨hflatNode, hflatRest⟩ := Node.throughout_cons.mp hflat
    have hnothing : (atDepth depth).YieldsTo (fun _ => none) (atDepth depth) env env :=
      fun _ _ h => absurd h (by simp)
    have hnode : Yields SameCode (node (atDepth depth) { env with blocks := [] } n)
        (nodes (atDepth depth) env [n]) :=
      node_yields hkeeps rfl hnothing hn (substituteNode_eq_self hflatNode)
    rw [hsame] at hnode
    rw [nodes, List.map_cons, nodesOf]
    exact (Yields.inFile_right hnode).bind fun _ _ hcode => .behind hcode (ih hrest hflatRest)

end

end Emission

end Templating
