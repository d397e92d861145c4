import Templating.Proofs.Emission.Relocation
import Templating.Proofs.Template.Including

/-!
# Templates in a larger set

Templates are emitted alike in every set that has the same templates under the names they ask for,
and on every level of references that leaves as many levels below. The induction follows the nodes;
what is elsewhere is taken care of by an induction on the depth around it.
-/

namespace Templating

variable {C : Value → Prop} {A : String → Prop}

/-- Every constant in the expressions of the node has a property. -/
def Node.Loads (C : Value → Prop) : Node → Prop
  | .literal .. => True
  | .output subject filters _ => subject.Loads C ∧ ∀ f ∈ filters, Expr.AllLoad C f.args
  | .tag _ args _ branches _ =>
    Emission.ArgsLoad C args ∧ ∀ b ∈ branches, Emission.ArgsLoad C b.args

/-- A property of all values is one of the constants in a node. -/
theorem Node.loads_of_forall (hC : ∀ v, C v) (n : Node) : n.Loads C := by
  cases n with
  | literal text span => trivial
  | output subject filters span =>
    exact ⟨Expr.loads_of_forall hC subject, fun f _ => Expr.allLoad_of_forall hC f.args⟩
  | tag name args body branches span =>
    exact ⟨fun e _ => Expr.loads_of_forall hC e, fun _ _ e _ => Expr.loads_of_forall hC e⟩

/-- The constants that emission adds by itself have a property. -/
structure Value.OfEmission (C : Value → Prop) : Prop where
  null : C .null
  bool : ∀ b, C (.bool b)
  text : ∀ s, C (.ofString s)

namespace Emission

open Node (Throughout ThroughoutBranches)

/-- Nodes that use built-in tags only, load constants and ask for names with certain properties. -/
def Portable (C : Value → Prop) (A : String → Prop) (registry : Registry) : List Node → Prop :=
  Throughout fun n => n.IsBuiltin registry ∧ n.Loads C ∧ n.Names A

/-- The templates and the blocks that emission may be led to are portable. -/
structure Surroundings.Portable (C : Value → Prop) (A : String → Prop) (env : Surroundings) :
    Prop where
  templates : ∀ t ∈ env.set.templates, Emission.Portable C A env.registry t.nodes
  layers : ∀ block, ∀ layer ∈ env.resolved.layers block,
    Emission.Portable C A env.registry layer.body

/-- Surroundings in which the templates of certain names are the same, and are included to the same
extent. -/
structure Surroundings.Moves (A : String → Prop) (env env' : Surroundings) : Prop where
  registry : env'.registry = env.registry
  resolved : env'.resolved = env.resolved
  blocks : env'.blocks = env.blocks
  including : ∀ name, A name → env'.including.contains name = env.including.contains name
  within : env.set.Within A env'.set

/-- Portable nodes are emitted alike elsewhere. -/
def Elsewhere.Moves (C : Value → Prop) (A : String → Prop) (E E' : Elsewhere) : Prop :=
  ∀ {env env' : Surroundings} {ns : List Node} {count : Nat}, env.Moves A env' →
    env.Portable C A → Portable C A env.registry ns →
      EmitsAlike C count True (E env ns) (E' env' ns)

variable {E E' : Elsewhere} {env env' : Surroundings} {count : Nat} {known : Prop}

/-- The same filters are known. -/
theorem Surroundings.Moves.isFilter (h : env.Moves A env') : env'.isFilter = env.isFilter := by
  funext name
  rw [Surroundings.isFilter, Surroundings.isFilter, h.registry]

/-- What inheritance makes of a portable set is portable, and is the same in the other set. -/
theorem Surroundings.Moves.resolved_moves (h : env.Moves A env') (henv : env.Portable C A)
    {template : Template} {resolved : Resolved} (ht : template ∈ env.set.templates)
    (hresolved : env.set.resolve template = .ok resolved) :
    let inner := { env with resolved, blocks := [], including := template.name :: env.including }
    let inner' :=
      { env' with resolved, blocks := [], including := template.name :: env'.including }
    inner.Moves A inner' ∧ inner.Portable C A ∧
      ∀ row ∈ resolved.body, Emission.Portable C A env.registry [row.2] := by
  intro inner inner'
  refine ⟨⟨h.registry, rfl, rfl, fun name hname => ?_, h.within⟩,
    ⟨henv.templates, fun block => ?_⟩, ?_⟩
  · simp only [inner, inner', List.contains_cons, h.including name hname]
  · exact TemplateSet.throughout_layers henv.templates hresolved ht block
  · exact TemplateSet.throughout_body henv.templates hresolved ht

/-- Lists that are related item by item still are so when one item of each is changed alike. -/
theorem forall₂_modify {α β : Type} {R : α → β → Prop} {f : α → α} {g : β → β} {l : List α}
    {l' : List β} (h : List.Forall₂ R l l') (hfg : ∀ a b, R a b → R (f a) (g b)) (i : Nat) :
    List.Forall₂ R (l.modify i f) (l'.modify i g) := by
  induction h generalizing i with
  | nil => simp
  | cons hx hrest ih =>
    cases i with
    | zero => simpa using ⟨hfg _ _ hx, hrest⟩
    | succ i => simpa using ⟨hx, ih i⟩

/-- Letting imported macros see each other. -/
theorem shareMacros_moves (imported : List (String × Nat)) :
    Moves C count known (fun _ _ _ => True) (shareMacros imported) (shareMacros imported) := by
  intro s t hst a s' hx
  obtain rfl : _ = s' := (Prod.mk.inj (Except.ok.inj hx)).2
  have hmodify : ∀ (pairs : List (String × Nat)) {table table' : Array MacroDecl},
      List.Forall₂ (MacroDecl.Moves C (s.tables t)) table.toList table'.toList →
        List.Forall₂ (MacroDecl.Moves C (s.tables t))
          (pairs.foldl (fun (table : Array MacroDecl) pair =>
            table.modify pair.2 fun decl => { decl with siblings := imported }) table).toList
          (pairs.foldl (fun (table : Array MacroDecl) pair =>
            table.modify pair.2 fun decl => { decl with siblings := imported }) table').toList := by
    intro pairs
    induction pairs with
    | nil => exact id
    | cons pair rest ih =>
      intro table table' htable
      refine ih ?_
      rw [Array.toList_modify, Array.toList_modify]
      refine forall₂_modify htable (fun _ _ hdecl => ?_) pair.2
      exact ⟨hdecl.name, hdecl.params, rfl, hdecl.code⟩
  exact ⟨(), _, rfl, ⟨hst.next, hst.file, hst.line, hst.filters, hmodify imported hst.macros⟩,
    .refl _, fun _ _ => trivial⟩

section

variable (hE : E.Moves C A E') (hmoves : env.Moves A env') (henv : env.Portable C A)

include hE hmoves henv

/-- The macros of a template get the same numbers. -/
theorem macrosOf_moves {ns : List Node} (hns : Portable C A env.registry ns) :
    Moves C count True (fun _ => Eq) (macrosOf E env ns) (macrosOf E' env' ns) := by
  induction ns with
  | nil => exact .pure fun _ => rfl
  | cons n rest ih =>
    obtain ⟨hn, hrest⟩ := Node.throughout_cons.mp hns
    cases n with
    | literal text span => exact ih hrest
    | output subject filters span => exact ih hrest
    | tag name args body branches span =>
      rw [macrosOf, macrosOf]
      split
      · refine .after_setLine ?_
        cases macroSignature? args with
        | none => exact ih hrest
        | some signature =>
          obtain ⟨_, hbody, _⟩ := Node.throughout_tag.mp hn
          refine (Moves.placed (Moves.macroCode (hE hmoves henv hbody))).bind
            fun id _ hids => ?_
          obtain ⟨_, rfl⟩ := hids
          refine (ih hrest).bind fun more _ hmores => ?_
          obtain ⟨_, rfl⟩ := hmores
          exact .pure fun _ _ _ => rfl
      · exact ih hrest

omit hE hmoves henv in
/-- The code of imported macros. -/
theorem macroPairs_moves (hC : Value.OfEmission C) (imported : List (String × Nat)) :
    EmitsAlike C count True (macroPairs imported) (macroPairs imported) := by
  induction imported with
  | nil => exact .pure fun _ => .nil
  | cons pair rest ih =>
    refine (Moves.op (.loadConst (.ofString pair.1)) (hC.text _)).bind fun _ _ _ => ?_
    refine (Moves.op (.buildMacro pair.2) trivial).bind fun _ _ _ => ih.bind fun _ _ _ => ?_
    exact .pure fun _ hmore hvalue hkey => (hkey.append hvalue).append hmore

/-- The code of the imported macros of a template. -/
theorem importTemplate_moves (hC : Value.OfEmission C) {name : String} (hname : A name) :
    EmitsAlike C count True (importTemplate E env name) (importTemplate E' env' name) := by
  unfold importTemplate
  rw [hmoves.within.get? name hname]
  cases hget : env.set.get? name with
  | none => exact .fail _ _
  | some template =>
    have hnodes := henv.templates template (TemplateSet.mem_of_get? hget).1
    have hpairs : Moves C count True
        (fun w (p q : Nat × Fragment) => q.1 = p.1 ∧ p.2.Moves C count w q.2)
        (do
          let imported ← macrosOf E env template.nodes
          shareMacros imported
          return (imported.length, ← macroPairs imported))
        (do
          let imported ← macrosOf E' env' template.nodes
          shareMacros imported
          return (imported.length, ← macroPairs imported)) := by
      refine (macrosOf_moves hE hmoves henv hnodes).bind fun imported _ ⟨_, himported⟩ => ?_
      subst himported
      refine (shareMacros_moves imported).bind fun _ _ _ => ?_
      exact (macroPairs_moves hC imported).bind fun _ _ _ => .pure fun _ hpairs _ _ => ⟨rfl, hpairs⟩
    refine (Moves.inFile hpairs).bind fun p q ⟨_, hcount, _⟩ => ?_
    obtain ⟨pairCount, pairs⟩ := p
    obtain ⟨_, pairs'⟩ := q
    obtain rfl : _ = pairCount := hcount
    exact (Moves.op (.buildMap _) trivial).bind fun _ _ _ =>
      .pure fun _ hmap hpairs => hpairs.2.append hmap

/-- The code of nodes from several templates. What file is current in front of them does not
matter. -/
theorem nodesOf_moves {rows : List (String × Node)}
    (hrows : ∀ row ∈ rows, Portable C A env.registry [row.2]) :
    EmitsAlike C count known (nodesOf E env rows) (nodesOf E' env' rows) := by
  induction rows with
  | nil => exact .pure fun _ => .nil
  | cons row rest ih =>
    obtain ⟨hrow, hrest⟩ := List.forall_mem_cons.mp hrows
    rw [nodesOf, nodesOf]
    refine (Moves.inFile (hE hmoves henv hrow)).bind fun _ _ _ => (ih hrest).bind fun _ _ _ => ?_
    exact .pure fun _ hmore hfirst => hfirst.append hmore

/-- The code of a definition of a block. -/
theorem blockLayer_moves (name : String) (index : Nat) :
    EmitsAlike C count True (blockLayer E env name index) (blockLayer E' env' name index) := by
  unfold blockLayer
  rw [hmoves.resolved]
  cases hlayer : (env.resolved.layers name)[index]? with
  | none => exact .pure fun _ => .nil
  | some layer =>
    have hinner : Surroundings.Moves A { env with blocks := (name, index) :: env.blocks }
        { env' with resolved := env.resolved, blocks := (name, index) :: env'.blocks } :=
      ⟨hmoves.registry, rfl, by simp only [hmoves.blocks], hmoves.including, hmoves.within⟩
    have hportable : Surroundings.Portable C A
        { env with blocks := (name, index) :: env.blocks } := ⟨henv.templates, henv.layers⟩
    exact .inFile (hE hinner hportable (henv.layers name layer (List.mem_of_getElem? hlayer)))

/-- The code of the next less derived definition. -/
theorem parentLayer_moves :
    EmitsAlike C count True (parentLayer E env) (parentLayer E' env') := by
  unfold parentLayer
  rw [hmoves.blocks]
  cases env.blocks with
  | nil => exact .failAt _ _
  | cons block rest => exact blockLayer_moves hE hmoves henv block.1 (block.2 + 1)

omit hE henv in
/-- The frame of an included template. -/
theorem includeFrame_moves (hC : Value.OfEmission C) {value? : Option Expr}
    (hvalue : ∀ e ∈ value?, e.Loads C) (isolated : Bool) :
    EmitsAlike C count True (includeFrame env value? isolated)
      (includeFrame env' value? isolated) := by
  unfold includeFrame
  rw [hmoves.isFilter]
  cases value? with
  | some e =>
    refine ((moves_congruence env.isFilter).expr (hvalue e rfl)).bind fun _ _ _ => ?_
    exact (Moves.op (.pushContext isolated) trivial).bind fun _ _ _ =>
      .pure fun _ hpush hcode => hcode.append hpush
  | none =>
    cases isolated with
    | true =>
      refine (Moves.op (.loadConst .null) hC.null).bind fun _ _ _ => ?_
      exact (Moves.op (.pushContext true) trivial).bind fun _ _ _ =>
        .pure fun _ hpush hcode => hcode.append hpush
    | false => exact .op _ trivial

/-- The code of an included template. -/
theorem insertTemplate_moves (hC : Value.OfEmission C) {name : String} (hname : A name)
    {value? : Option Expr} (hvalue : ∀ e ∈ value?, e.Loads C) (isolated isOptional : Bool) :
    EmitsAlike C count True (insertTemplate E env name value? isolated isOptional)
      (insertTemplate E' env' name value? isolated isOptional) := by
  unfold insertTemplate
  rw [hmoves.within.get? name hname]
  cases hget : env.set.get? name with
  | none =>
    cases isOptional with
    | true => exact .pure fun _ => .nil
    | false => exact .fail _ _
  | some template =>
    obtain ⟨hmem, hsame⟩ := TemplateSet.mem_of_get? hget
    simp only [hmoves.including template.name (hsame ▸ hname)]
    split
    · exact .failAt _ _
    · refine .lift_bind fun resolved hresolved =>
        ⟨hmoves.within.resolve hmem hresolved, ?_⟩
      obtain ⟨hinner, hportable, hrows⟩ := hmoves.resolved_moves henv hmem hresolved
      refine (includeFrame_moves hmoves hC hvalue isolated).bind fun _ _ _ => ?_
      refine (nodesOf_moves hE hinner hportable hrows).bind fun _ _ _ => ?_
      exact (Moves.op .popFrame trivial).bind fun _ _ _ =>
        .pure fun _ hpop hbody hframe => (hframe.append hbody).append hpop

end

mutual

/-- The code of a portable node. -/
theorem node_moves (hE : E.Moves C A E') (hC : Value.OfEmission C) (hmoves : env.Moves A env')
    (henv : env.Portable C A) : ∀ {count : Nat} {n : Node}, Portable C A env.registry [n] →
      EmitsAlike C count True (node E env n) (node E' env' n)
  | count, .literal text span, _ => by
    rw [node, node]
    refine .after_setLine ?_
    split
    · exact .pure fun _ => .nil
    · exact .op (.emitRaw text) trivial
  | count, .output subject filters span, hn => by
    obtain ⟨-, ⟨hsubject, hfilters⟩, -⟩ :=
      hn (.output subject filters span) (by simp [Node.everywhere])
    rw [node, node, hmoves.isFilter]
    exact .after_setLine (.placed ((moves_congruence _).output hsubject hfilters))
  | count, .tag name args body branches span, hn => by
    obtain ⟨⟨hbuiltin, ⟨hargs, hlabels⟩, hnames⟩, hbody, hbranches⟩ := Node.throughout_tag.mp hn
    have hnodes {count : Nat} : EmitsAlike C count True (nodes E env body) (nodes E' env' body) :=
      nodes_moves hE hC hmoves henv hbody
    have hbranch : EmitsAlike C count True _ _ := branchAt_moves hE hC hmoves henv 0 hbranches
    have hcode : Congruence env.isFilter C (EmitsAlike C count True) := moves_congruence _
    simp only [node, hmoves.registry, hmoves.isFilter]
    refine .after_setLine (.placed (.noted ?_))
    cases htag : env.registry.tag? name with
    | none => exact .fail _ _
    | some tag =>
      cases tag with
      | custom tag => exact absurd htag (hbuiltin tag)
      | builtin tag =>
        cases tag with
        | inherit => exact .pure fun _ => .nil
        | block =>
          cases args.head?.bind TagArg.asIdent? with
          | none => exact .failAt _ _
          | some block => exact blockLayer_moves hE hmoves henv block 0
        | parent => exact parentLayer_moves hE hmoves henv
        | cond =>
          cases behindElse? branches with
          | some b => exact .fail _ _
          | none =>
            cases hcondition : args.head?.bind TagArg.asExpr? with
            | none => exact .failAt _ _
            | some condition =>
              have hcondition := hargs condition (expr_mem_of_head hcondition)
              refine (hcode.expr hcondition).bind fun _ _ _ => Moves.reserve.bind fun _ _ _ => ?_
              refine hnodes.bind fun _ _ _ => ?_
              refine (alternatives_moves hE hC hmoves henv hlabels hbranches).bind
                fun p q ⟨_, _, hentry⟩ => .pure fun _ hmore hyes hjump htest => ?_
              obtain ⟨more, onFalse⟩ := p
              obtain ⟨more', _⟩ := q
              obtain rfl : _ = count + onFalse := hentry
              exact (htest.append (.cons (hjump (.jumpIfFalse onFalse) trivial) hyes)).append
                hmore.1
        | loop =>
          match branches, hbranch with
          | [], _ => exact hcode.loop hargs hnodes .none
          | [_], hbranch => exact hcode.loop hargs hnodes (.some hbranch)
          | _ :: _ :: _, _ => exact .fail _ _
        | assign => exact hcode.assignment hargs
        | insert =>
          cases htemplate : args.head?.bind TagArg.asText? with
          | none => exact .failAt _ _
          | some template =>
            refine insertTemplate_moves hE hmoves henv hC (hnames template ?_) ?_ _ _
            · exact text_mem_of_head htemplate
            · intro e he
              obtain ⟨arg, harg, he⟩ := List.exists_of_findSome?_eq_some he
              cases arg with
              | expr e' =>
                obtain rfl := Option.some.inj he
                exact hargs e' harg
              | _ => simp [TagArg.asExpr?] at he
        | importMacros =>
          simp only
          split
          · rename_i template alias_
            refine (importTemplate_moves hE hmoves henv hC (hnames template (by simp))).bind
              fun _ _ _ => ?_
            exact (Moves.op (.storeLocal alias_) trivial).bind fun _ _ _ =>
              .pure fun _ hstore hcode => hcode.append hstore
          · exact .failAt _ _
        | defineMacro =>
          cases macroSignature? args with
          | none => exact .failAt _ _
          | some signature =>
            refine (Moves.macroCode hnodes).bind fun id _ ⟨_, hid⟩ => ?_
            subst hid
            refine (Moves.op (.buildMacro id) trivial).bind fun _ _ _ => ?_
            exact (Moves.op (.storeLocal signature.1) trivial).bind fun _ _ _ =>
              .pure fun _ hstore hbuild _ => hbuild.append hstore
        | filter => exact hcode.filtered hargs (hC.bool false) hnodes
        | escaping => exact hcode.escaping hC.bool hnodes

/-- The code of portable nodes one after the other. -/
theorem nodes_moves (hE : E.Moves C A E') (hC : Value.OfEmission C) (hmoves : env.Moves A env')
    (henv : env.Portable C A) : ∀ {count : Nat} {ns : List Node}, Portable C A env.registry ns →
      EmitsAlike C count True (nodes E env ns) (nodes E' env' ns)
  | count, [], _ => by
    rw [nodes, nodes]
    exact .pure fun _ => .nil
  | count, n :: rest, hns => by
    obtain ⟨hn, hrest⟩ := Node.throughout_cons.mp hns
    rw [nodes, nodes]
    refine (node_moves hE hC hmoves henv hn).bind fun _ _ _ => ?_
    exact (nodes_moves hE hC hmoves henv hrest).bind fun _ _ _ =>
      .pure fun _ hmore hfirst => hfirst.append hmore

/-- The code of the branches of a condition, and where it is entered. -/
theorem alternatives_moves (hE : E.Moves C A E') (hC : Value.OfEmission C)
    (hmoves : env.Moves A env') (henv : env.Portable C A) : ∀ {count : Nat}
    {branches : List Branch}, (∀ b ∈ branches, ArgsLoad C b.args) →
      ThroughoutBranches
        (fun n => n.IsBuiltin env.registry ∧ n.Loads C ∧ n.Names A) branches →
        Moves C count True
          (fun w (p q : Fragment × Nat) => p.1.Moves C count w q.1 ∧ q.2 = count + p.2)
          (alternatives E env branches) (alternatives E' env' branches)
  | count, [], _, _ => by
    rw [alternatives, alternatives]
    exact Moves.here.bind fun _ _ _ => .pure fun _ hstop => ⟨.nil, hstop⟩
  | count, .mk label args body span :: rest, hlabels, hbranches => by
    obtain ⟨hargs, hlabels⟩ := List.forall_mem_cons.mp hlabels
    obtain ⟨hbody, hrest⟩ := Node.throughoutBranches_cons.mp hbranches
    have hnodes : EmitsAlike C count True _ _ := nodes_moves hE hC hmoves henv hbody
    have hmore : Moves C count True _ _ _ := alternatives_moves hE hC hmoves henv hlabels hrest
    rw [alternatives, alternatives, hmoves.isFilter]
    refine .after_setLine (Moves.reserve.bind fun _ _ _ => ?_)
    refine Moves.here.bind fun entry _ ⟨_, hentry⟩ => ?_
    subst hentry
    cases hcondition : args.head?.bind TagArg.asExpr? with
    | some condition =>
      have hcondition : condition.Loads C := hargs condition (expr_mem_of_head hcondition)
      refine ((moves_congruence _).expr hcondition).bind fun _ _ _ => ?_
      refine Moves.reserve.bind fun _ _ _ => ?_
      refine hnodes.bind fun _ _ _ => hmore.bind fun p q ⟨_, _, honFalse⟩ => ?_
      obtain ⟨code, onFalse⟩ := p
      obtain ⟨code', _⟩ := q
      obtain rfl : _ = count + onFalse := honFalse
      refine Moves.here.bind fun stop _ ⟨_, hstop⟩ => .pure ?_
      subst hstop
      intro w _ hmore hcode hjump htest _ hskip
      have hfirst := Fragment.Moves.cons (hskip (.jump stop) trivial) htest
      have hsecond := Fragment.Moves.cons (hjump (.jumpIfFalse onFalse) trivial) hcode
      exact ⟨(hfirst.append hsecond).append hmore.1, rfl⟩
    | none =>
      refine hnodes.bind fun _ _ _ => hmore.bind fun p q _ => ?_
      refine Moves.here.bind fun stop _ ⟨_, hstop⟩ => .pure ?_
      subst hstop
      intro w _ hmore hcode _ hskip
      exact ⟨(Fragment.Moves.cons (hskip (.jump stop) trivial) hcode).append hmore.1, rfl⟩

/-- The code of one branch. -/
theorem branchAt_moves (hE : E.Moves C A E') (hC : Value.OfEmission C)
    (hmoves : env.Moves A env') (henv : env.Portable C A) : ∀ {count : Nat}
    {branches : List Branch} (index : Nat),
      ThroughoutBranches
        (fun n => n.IsBuiltin env.registry ∧ n.Loads C ∧ n.Names A) branches →
        EmitsAlike C count True (branchAt E env branches index) (branchAt E' env' branches index)
  | count, [], index, _ => by
    rw [branchAt, branchAt]
    exact .pure fun _ => .nil
  | count, .mk label args body span :: rest, index, hbranches => by
    obtain ⟨hbody, hrest⟩ := Node.throughoutBranches_cons.mp hbranches
    cases index with
    | zero =>
      rw [branchAt, branchAt]
      exact nodes_moves hE hC hmoves henv hbody
    | succ index =>
      rw [branchAt, branchAt]
      exact branchAt_moves hE hC hmoves henv index hrest

end

/-- Portable nodes are emitted alike, however many levels of references there are above those that
are enough. -/
theorem atDepth_moves (hC : Value.OfEmission C) (depth more : Nat) :
    (atDepth depth).Moves C A (atDepth (depth + more)) := by
  induction depth with
  | zero =>
    intro env env' ns count _ _ _
    exact .fail _ _
  | succ depth ih =>
    intro env env' ns count hmoves henv hns
    rw [Nat.succ_add, atDepth, atDepth]
    exact nodes_moves ih hC hmoves henv hns

end Emission

end Templating
