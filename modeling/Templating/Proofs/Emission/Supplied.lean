import Templating.Proofs.Emission.Outcomes
import Templating.Proofs.Template.Loading

/-!
# Emission finds the templates it needs

A template is looked up in three places: where another one extends it, includes it or imports it. If
every template that the tags of a set require is in the set, no such search is in vain, whatever the
tags are nested in. Emission fails for reasons of its own then, and for those of added tags.
-/

namespace Templating

open Node (Throughout ThroughoutBranches)

/-- A template that is extended is required by one of the nodes, unless it was found before. -/
theorem Template.requires_of_extendsTag? {registry : Registry} {t : Template} {ns : List Node}
    {found : Option (String × Nat)} {content : Bool} {base : String} {line : Nat}
    (hinherit : registry.tag? "extends" = some (.builtin .inherit))
    (h : t.extendsTag? found content ns = .ok (some (base, line))) :
    found = some (base, line) ∨ ∃ n ∈ ns, n.Requires registry base := by
  induction ns generalizing found content with
  | nil => exact .inl (Except.ok.inj h)
  | cons n rest ih =>
    have hlater {found' : Option (String × Nat)} {content' : Bool}
        (h : t.extendsTag? found' content' rest = .ok (some (base, line))) :
        found' = some (base, line) ∨ ∃ m ∈ n :: rest, m.Requires registry base :=
      (ih h).imp_right fun ⟨m, hm, hrequires⟩ => ⟨m, List.mem_cons_of_mem _ hm, hrequires⟩
    cases n with
    | literal text span => exact hlater (by rwa [extendsTag?] at h)
    | output subject filters span => exact hlater (by rwa [extendsTag?] at h)
    | tag name args body branches span =>
      rw [extendsTag?] at h
      simp only [failAt] at h
      split at h
      · next hname =>
        split at h
        · simp at h
        · split at h
          · next own hown =>
            rcases hlater h with heq | hm
            · obtain ⟨rfl, -⟩ := Prod.mk.inj (Option.some.inj heq)
              obtain ⟨arg, harg, harg'⟩ := Option.bind_eq_some_iff.mp hown
              refine .inr ⟨_, List.mem_cons_self, .builtin .inherit, hname ▸ hinherit, ?_⟩
              refine List.mem_filterMap.mpr ⟨arg, List.mem_of_mem_head? harg, ?_⟩
              rw [harg']
              rfl
            · exact .inr hm
          · simp at h
      · split at h
        · simp at h
        · exact hlater h

section

variable {allowed : Error → Prop} {t : Template} (hadmits : Emission.Admits allowed)

include hadmits

/-- An error in a template that is allowed without a place. -/
theorem Template.failsWith_failAt {α : Type} {line : Nat} {fault : Fault}
    (h : allowed (.ofFault fault)) : (t.failAt line fault : Result α).FailsWith allowed :=
  .error (hadmits.located _ _ h)

/-- Looking for the template that is extended looks up none. -/
theorem Template.failsWith_extendsTag? {found : Option (String × Nat)} {content : Bool}
    {ns : List Node} : (t.extendsTag? found content ns).FailsWith allowed := by
  induction ns generalizing found content with
  | nil => exact .ok _
  | cons n rest ih =>
    cases n with
    | literal text span =>
      rw [extendsTag?]
      exact ih
    | output subject filters span =>
      rw [extendsTag?]
      exact ih
    | tag name args body branches span =>
      rw [extendsTag?]
      split
      · split
        · exact failsWith_failAt hadmits (hadmits.others (by rintro ⟨⟩) rfl)
        · split
          · exact ih
          · exact failsWith_failAt hadmits (hadmits.others (by rintro ⟨⟩) rfl)
      · split
        · exact failsWith_failAt hadmits (hadmits.others (by rintro ⟨⟩) rfl)
        · exact ih

/-- Collecting the blocks looks up no template. -/
theorem Template.failsWith_blocks : t.blocks.FailsWith allowed := by
  unfold Template.blocks
  dsimp only
  split
  · exact failsWith_failAt hadmits (hadmits.others (by rintro ⟨⟩) rfl)
  · exact .ok _

end

namespace TemplateSet

variable {registry : Registry} {s : TemplateSet} {allowed : Error → Prop}

/-- A template that is not found by its name is not in the set. -/
theorem name_ne_of_get?_eq_none {name : String} (h : s.get? name = none) :
    ∀ u ∈ s.templates, u.name ≠ name := by
  unfold get? at h
  split at h
  · simp at h
  · next hroot =>
    refine List.forall_mem_cons.mpr ⟨Ne.symm hroot, fun u hu => ?_⟩
    simpa using List.find?_eq_none.mp h u hu

/-- Applying inheritance fails with allowed errors, if it may be reported that a template is missing
or every template that is extended is in the set. -/
theorem failsWith_resolve (hadmits : Emission.Admits allowed)
    (hmissing : ¬ Emission.MissingAllowed allowed →
      s.Closed registry ∧ registry.tag? "extends" = some (.builtin .inherit))
    {t : Template} (ht : t ∈ s.templates) : (s.resolve t).FailsWith allowed := by
  have hchain (bound : Nat) {current : Template} {earlier : List Template}
      (hcurrent : current ∈ s.templates) :
      (s.chainFrom bound current earlier).FailsWith allowed := by
    induction bound generalizing current earlier with
    | zero => exact .fail (hadmits.others (by rintro ⟨⟩) rfl)
    | succ bound ih =>
      rw [chainFrom]
      cases hbase : current.base? with
      | error e => exact .error (Template.failsWith_extendsTag? hadmits e hbase)
      | ok base? =>
        rcases base? with _ | ⟨base, line⟩
        · exact .ok _
        · dsimp only
          split
          · exact Template.failsWith_failAt hadmits (hadmits.others (by rintro ⟨⟩) rfl)
          · cases hnext : s.get? base with
            | some next => exact ih (mem_of_get? hnext).1
            | none =>
              refine Template.failsWith_failAt hadmits ?_
              by_contra hbad
              obtain ⟨hclosed, hinherit⟩ := hmissing fun h => hbad (h base)
              rcases Template.requires_of_extendsTag? hinherit hbase with hfound | ⟨n, hn, hneeds⟩
              · simp at hfound
              · obtain ⟨u, hu, hname⟩ := (hclosed current hcurrent).apply hn base hneeds
                exact absurd hname (name_ne_of_get?_eq_none hnext u hu)
  refine (hchain _ ht).bind fun chain _ => ?_
  have hlevels : Result.FailsWith allowed
      (chain.mapM fun t => do return (t.name, ← t.blocks) : Result _) :=
    .mapM fun u _ => (Template.failsWith_blocks hadmits).bind fun _ _ => .ok _
  exact hlevels.bind fun _ _ => .ok _

/-- Applying inheritance in a closed set finds every template that is extended. -/
theorem Closed.failsOnly_resolve {allowed : ErrorKind → Prop} (hclosed : s.Closed registry)
    (hinherit : registry.tag? "extends" = some (.builtin .inherit))
    (hothers : Emission.OthersAllowed allowed) {t : Template} (ht : t ∈ s.templates) :
    (s.resolve t).FailsOnly allowed :=
  failsWith_resolve hothers.admits (fun _ => ⟨hclosed, hinherit⟩) ht

end TemplateSet

/-- What compilation rejects about a tag itself: its name, or a label behind an `else`. -/
def Node.rejection? (registry : Registry) : Node → Option Fault
  | .tag name _ _ branches span =>
    match registry.tag? name with
    | none => some (.unknownTag name span.start.line)
    | some (.builtin .cond) =>
      (Emission.behindElse? branches).map fun b => .labelAfterElse b.label b.line
    | some (.builtin .loop) => branches[1]?.map fun b => .repeatedElse b.line
    | _ => none
  | _ => none

/-- All templates that the node requires are in the set, if it may not be reported that one is
missing, and what is rejected about a tag may be reported on its line. -/
structure Node.IsExcused (allowed : Error → Prop) (registry : Registry) (s : TemplateSet)
    (n : Node) : Prop where
  supplied : ¬ Emission.MissingAllowed allowed → n.IsSupplied registry s
  rejected : ∀ {fault}, n.rejection? registry = some fault →
    ∀ template, allowed ((Error.ofFault fault).locate template n.line)

namespace Emission

variable {allowed : Error → Prop}

/-- What is rejected about a tag is reported on its line, before any code of it is emitted. -/
theorem node_of_rejection? {E : Elsewhere} {env : Surroundings} {n : Node} {fault : Fault}
    (h : n.rejection? env.registry = some fault) (st : EmissionState) :
    node E env n st = .error ((Error.ofFault fault).locate (fileName st) n.line) := by
  cases n with
  | literal text span => cases h
  | output subject filters span => cases h
  | tag name args body branches span =>
    have hrejected {x : Emission Fragment} (hx : x = fail fault) :
        (setLine span.start.line >>= fun _ => placed span.start.line
          (if env.registry.isCustomTag name = true then useTag name >>= fun _ => x else x)) st =
            .error ((Error.ofFault fault).locate (fileName st) span.start.line) := by
      subst hx
      split <;> rfl
    simp only [node]
    refine hrejected ?_
    cases htag : env.registry.tag? name with
    | none =>
      simp only [Node.rejection?, htag, Option.some.injEq] at h
      rw [h]
    | some tag =>
      cases tag with
      | custom tag => simp [Node.rejection?, htag] at h
      | builtin tag =>
        cases tag with
        | cond =>
          simp only [Node.rejection?, htag, Option.map_eq_some_iff] at h
          obtain ⟨b, hb, rfl⟩ := h
          simp only [hb]
        | loop =>
          simp only [Node.rejection?, htag, Option.map_eq_some_iff] at h
          obtain ⟨b, hb, rfl⟩ := h
          obtain ⟨first, rest, rfl⟩ : ∃ first rest, branches = first :: b :: rest := by
            rcases branches with _ | ⟨first, _ | ⟨second, rest⟩⟩
            · simp at hb
            · simp at hb
            · obtain rfl : second = b := by simpa using hb
              exact ⟨first, rest, rfl⟩
          rfl
        | _ => simp [Node.rejection?, htag] at h

/-- The nodes are so at any depth. -/
def Supplied (allowed : Error → Prop) (registry : Registry) (s : TemplateSet) :
    List Node → Prop :=
  Throughout (Node.IsExcused allowed registry s)

/-- Whatever emission is led to from here finds the templates that it needs. -/
structure Surroundings.Supplied (allowed : Error → Prop) (env : Surroundings) : Prop where
  plans : ∀ ⦃name : String⦄ ⦃tag : CustomTag⦄, env.registry.tag? name = some (.custom tag) →
    ∀ use, (tag.plan use).FailsWith allowed
  resolve : ∀ t ∈ env.set.templates, (env.set.resolve t).FailsWith allowed
  templates : ∀ t ∈ env.set.templates, Emission.Supplied allowed env.registry env.set t.nodes
  layers : ∀ block, ∀ layer ∈ env.resolved.layers block,
    Emission.Supplied allowed env.registry env.set layer.body

/-- The outcomes of nodes at other places. -/
def Elsewhere.Keeps (allowed : Error → Prop) (E : Elsewhere) : Prop :=
  ∀ ⦃env : Surroundings⦄ ⦃ns : List Node⦄, env.Supplied allowed →
    Emission.Supplied allowed env.registry env.set ns →
      Emission.Keeps env.isFilter allowed (E env ns)

section

variable {E : Elsewhere} {env : Surroundings} (hadmits : Admits allowed)
  (hE : E.Keeps allowed) (henv : env.Supplied allowed)

include henv in
/-- What inheritance makes of a template of the set is supplied. -/
theorem Surroundings.Supplied.inside {template : Template} {resolved : Resolved}
    (hresolve : env.set.resolve template = .ok resolved) (ht : template ∈ env.set.templates)
    (blocks : List (String × Nat)) (including : List String) :
    Surroundings.Supplied allowed { env with resolved, blocks, including } ∧
      ∀ row ∈ resolved.body, Emission.Supplied allowed env.registry env.set [row.2] :=
  ⟨⟨henv.plans, henv.resolve, henv.templates,
      fun block => TemplateSet.throughout_layers henv.templates hresolve ht block⟩,
    TemplateSet.throughout_body henv.templates hresolve ht⟩

/-- A template that a supplied node requires is missing only if that may be reported. -/
theorem allowed_of_get?_eq_none {n : Node} {name : String}
    (hn : ¬ MissingAllowed allowed → n.IsSupplied env.registry env.set)
    (hrequires : n.Requires env.registry name) (hget : env.set.get? name = none) :
    allowed (.ofFault (.templateNotFound name)) := by
  by_contra hbad
  obtain ⟨u, hu, hname⟩ := hn (fun h => hbad (h name)) name hrequires
  exact TemplateSet.name_ne_of_get?_eq_none hget u hu hname

include hE henv

/-- The outcomes of a definition of a block. -/
theorem blockLayer_keeps (name : String) (index : Nat) :
    Keeps env.isFilter allowed (blockLayer E env name index) := by
  unfold blockLayer
  cases hlayer : (env.resolved.layers name)[index]? with
  | none => exact .pure _
  | some layer =>
    have hinner : Surroundings.Supplied allowed
        { env with blocks := (name, index) :: env.blocks } :=
      ⟨henv.plans, henv.resolve, henv.templates, henv.layers⟩
    exact .inFile (hE hinner (henv.layers name layer (List.mem_of_getElem? hlayer)))

/-- The outcomes of nodes from several templates. -/
theorem nodesOf_keeps {rows : List (String × Node)}
    (hrows : ∀ row ∈ rows, Supplied allowed env.registry env.set [row.2]) :
    Keeps env.isFilter allowed (nodesOf E env rows) := by
  induction rows with
  | nil => exact .pure _
  | cons row rest ih =>
    obtain ⟨hrow, hrest⟩ := List.forall_mem_cons.mp hrows
    exact (Keeps.inFile (hE henv hrow)).bind fun _ => .behind _ (ih hrest)

include hadmits

/-- The outcomes of the macros among the nodes. -/
theorem macrosOf_keeps {ns : List Node} (hns : Supplied allowed env.registry env.set ns) :
    Keeps env.isFilter allowed (macrosOf E env ns) := by
  induction ns with
  | nil => exact .pure _
  | cons n rest ih =>
    obtain ⟨hn, hrest⟩ := Node.throughout_cons.mp hns
    cases n with
    | literal text span => exact ih hrest
    | output subject filters span => exact ih hrest
    | tag name args body branches span =>
      obtain ⟨-, hbody, -⟩ := Node.throughout_tag.mp hn
      rw [macrosOf]
      split
      · refine Keeps.setLine.bind fun _ => ?_
        cases macroSignature? args with
        | none => exact ih hrest
        | some signature =>
          exact (Keeps.placed hadmits (.macroCode (hE henv hbody))).bind fun _ =>
            (ih hrest).bind fun _ => .pure _
      · exact ih hrest

/-- The outcomes of the next less derived definition of a block. -/
theorem parentLayer_keeps : Keeps env.isFilter allowed (parentLayer E env) := by
  unfold parentLayer
  split
  · exact blockLayer_keeps hE henv _ _
  · exact .failAt fun _ => hadmits.others (by rintro ⟨⟩) rfl

/-- The outcomes of another template at this place. -/
theorem insertTemplate_keeps {name : String} {value? : Option Expr} {isolated isOptional : Bool}
    (hmissing : env.set.get? name = none → isOptional = false →
      allowed (.ofFault (.templateNotFound name))) :
    Keeps env.isFilter allowed (insertTemplate E env name value? isolated isOptional) := by
  unfold insertTemplate
  cases hget : env.set.get? name with
  | none =>
    cases isOptional with
    | true => exact .pure _
    | false => exact .fail (hmissing hget rfl)
  | some template =>
    dsimp only
    split
    · exact .failAt fun _ => hadmits.others (by rintro ⟨⟩) rfl
    · have htemplate := (TemplateSet.mem_of_get? hget).1
      refine .lift_bind (henv.resolve _ htemplate) fun resolved hresolve => ?_
      obtain ⟨hinner, hrows⟩ := henv.inside hresolve htemplate []
        (template.name :: env.including)
      have hframe : Keeps env.isFilter allowed (includeFrame env value? isolated) := by
        cases value? with
        | some e =>
          exact ((keeps_congruence hadmits _).expr e.loads_true).bind fun _ => .behind _ .op
        | none =>
          cases isolated with
          | true => exact Keeps.op.bind fun _ => .behind _ .op
          | false => exact .op
      exact hframe.bind fun _ => (nodesOf_keeps hE hinner hrows).bind fun _ => .behind _ .op

/-- The outcomes of the macros of another template. -/
theorem importTemplate_keeps {name : String}
    (hmissing : env.set.get? name = none → allowed (.ofFault (.templateNotFound name))) :
    Keeps env.isFilter allowed (importTemplate E env name) := by
  have hpairs (imported : List (String × Nat)) :
      Keeps env.isFilter allowed (macroPairs imported) := by
    induction imported with
    | nil => exact .pure _
    | cons pair rest ih => exact Keeps.op.bind fun _ => Keeps.op.bind fun _ => .behind _ ih
  unfold importTemplate
  cases hget : env.set.get? name with
  | none => exact .fail (hmissing hget)
  | some template =>
    have hmacros := macrosOf_keeps hadmits hE henv
      (henv.templates template (TemplateSet.mem_of_get? hget).1)
    refine (Keeps.inFile (hmacros.bind fun imported => ?_)).bind fun _ => .behind _ .op
    exact Keeps.shareMacros.bind fun _ => (hpairs imported).bind fun _ => .pure _

omit hE henv hadmits

mutual

/-- The outcomes of a supplied node. -/
theorem node_keeps (hadmits : Admits allowed) (hE : E.Keeps allowed)
    (henv : env.Supplied allowed) : ∀ {n : Node}, Supplied allowed env.registry env.set [n] →
      Keeps env.isFilter allowed (node E env n)
  | .literal text span, _ => by
    rw [node]
    refine Keeps.setLine.bind fun _ => ?_
    split
    · exact .pure _
    · exact .op
  | .output subject filters span, _ => by
    rw [node]
    exact Keeps.setLine.bind fun _ => .placed hadmits ((keeps_congruence hadmits _).output
      subject.loads_true fun _ _ => Expr.allLoad_true _)
  | .tag name args body branches span, hn => by
    obtain ⟨hown, hbody, hbranches⟩ := Node.throughout_tag.mp hn
    have hnodes := nodes_keeps hadmits hE henv hbody
    have hbranch := fun index => branchAt_keeps hadmits hE henv index hbranches
    have hcode := keeps_congruence hadmits env.isFilter
    have hbad (tagName : String) : Keeps env.isFilter allowed (badArguments tagName) :=
      badArguments_keeps hadmits tagName
    have hrequired {tag : BuiltinTag} {required : String}
        (htag : env.registry.tag? name = some (.builtin tag))
        (hneeds : { name := required } ∈ tag.dependencies args) :
        env.set.get? required = none → allowed (.ofFault (.templateNotFound required)) :=
      allowed_of_get?_eq_none hown.supplied ⟨_, htag, hneeds⟩
    have hplaced {x : Emission Fragment} (hx : Keeps env.isFilter allowed x) :
        Keeps env.isFilter allowed (placed span.start.line
          (if env.registry.isCustomTag name = true then useTag name >>= fun _ => x else x)) := by
      refine .placed hadmits ?_
      split
      · exact Keeps.useTag.bind fun _ => hx
      · exact hx
    have hrejected {fault : Fault}
        (hfault : (Node.tag name args body branches span).rejection? env.registry = some fault) :
        Keeps env.isFilter allowed (placed span.start.line
          (if env.registry.isCustomTag name = true then useTag name >>= fun _ => fail fault
            else fail fault) : Emission Fragment) := by
      refine .placed_of_fails (fun s => ?_) (hown.rejected hfault)
      split <;> rfl
    simp only [node]
    refine Keeps.setLine.bind fun _ => ?_
    cases htag : env.registry.tag? name with
    | none => exact hrejected (by simp [Node.rejection?, htag])
    | some tag =>
      cases tag with
      | custom tag =>
        exact hplaced (.lift_bind (henv.plans htag _) fun steps _ =>
          hcode.holds_plan (fun _ => trivial) hnodes hbranch steps)
      | builtin tag =>
        cases tag with
        | inherit => exact hplaced (.pure _)
        | block =>
          refine hplaced ?_
          cases args.head?.bind TagArg.asIdent? with
          | none => exact hbad _
          | some block => exact blockLayer_keeps hE henv block 0
        | parent => exact hplaced (parentLayer_keeps hadmits hE henv)
        | cond =>
          cases hlabel : behindElse? branches with
          | some b => exact hrejected (by simp [Node.rejection?, htag, hlabel])
          | none =>
            refine hplaced ?_
            cases args.head?.bind TagArg.asExpr? with
            | none => exact hbad _
            | some condition =>
              refine (hcode.expr condition.loads_true).bind fun _ => Keeps.reserve.bind fun _ => ?_
              exact hnodes.bind fun _ =>
                (alternatives_keeps hadmits hE henv hbranches).bind fun _ => .pure _
        | loop =>
          match branches with
          | [] => exact hplaced (hcode.holds_loop (argsLoad_true _) hnodes (by simp))
          | [_] =>
            exact hplaced (hcode.holds_loop (argsLoad_true _) hnodes
              fun _ h => Option.some.inj h ▸ hbranch 0)
          | _ :: b :: _ => exact hrejected (by simp [Node.rejection?, htag])
        | assign => exact hplaced (hcode.assignment (argsLoad_true _))
        | insert =>
          refine hplaced ?_
          cases hname : args.head?.bind TagArg.asText? with
          | none => exact hbad _
          | some template =>
            refine insertTemplate_keeps hadmits hE henv fun hget hrequires => ?_
            refine hrequired htag ?_ hget
            simp [BuiltinTag.dependencies, hname, hrequires]
        | importMacros =>
          refine hplaced ?_
          dsimp only
          split
          · refine (importTemplate_keeps hadmits hE henv fun hget => ?_).bind fun _ =>
              .behind _ .op
            exact hrequired htag (by simp [BuiltinTag.dependencies, TagArg.asText?]) hget
          · exact hbad _
        | defineMacro =>
          refine hplaced ?_
          cases macroSignature? args with
          | none => exact hbad _
          | some signature =>
            exact (Keeps.macroCode hnodes).bind fun _ => Keeps.op.bind fun _ => .behind _ .op
        | filter => exact hplaced (hcode.holds_filtered (argsLoad_true _) trivial hnodes)
        | escaping => exact hplaced (hcode.holds_escaping (fun _ => trivial) hnodes)

/-- The outcomes of supplied nodes. -/
theorem nodes_keeps (hadmits : Admits allowed) (hE : E.Keeps allowed)
    (henv : env.Supplied allowed) : ∀ {ns : List Node}, Supplied allowed env.registry env.set ns →
      Keeps env.isFilter allowed (nodes E env ns)
  | [], _ => by
    rw [nodes]
    exact .pure _
  | n :: rest, hns => by
    obtain ⟨hn, hrest⟩ := Node.throughout_cons.mp hns
    rw [nodes]
    exact (node_keeps hadmits hE henv hn).bind fun _ =>
      .behind _ (nodes_keeps hadmits hE henv hrest)

/-- The outcomes of the branches of a condition. -/
theorem alternatives_keeps (hadmits : Admits allowed) (hE : E.Keeps allowed)
    (henv : env.Supplied allowed) : ∀ {branches : List Branch},
    ThroughoutBranches (Node.IsExcused allowed env.registry env.set) branches →
      Keeps env.isFilter allowed (alternatives E env branches)
  | [], _ => by
    rw [alternatives]
    exact Keeps.here.bind fun _ => .pure _
  | .mk label args body span :: rest, hbranches => by
    obtain ⟨hbody, hrest⟩ := Node.throughoutBranches_cons.mp hbranches
    rw [alternatives]
    refine Keeps.setLine.bind fun _ => Keeps.reserve.bind fun _ => Keeps.here.bind fun _ => ?_
    cases args.head?.bind TagArg.asExpr? with
    | some condition =>
      refine ((keeps_congruence hadmits _).expr condition.loads_true).bind fun _ => ?_
      refine Keeps.reserve.bind fun _ => ?_
      refine (nodes_keeps hadmits hE henv hbody).bind fun _ => ?_
      exact (alternatives_keeps hadmits hE henv hrest).bind fun _ =>
        Keeps.here.bind fun _ => .pure _
    | none =>
      refine (nodes_keeps hadmits hE henv hbody).bind fun _ => ?_
      exact (alternatives_keeps hadmits hE henv hrest).bind fun _ =>
        Keeps.here.bind fun _ => .pure _

/-- The outcomes of one branch. -/
theorem branchAt_keeps (hadmits : Admits allowed) (hE : E.Keeps allowed)
    (henv : env.Supplied allowed) : ∀ {branches : List Branch} (index : Nat),
    ThroughoutBranches (Node.IsExcused allowed env.registry env.set) branches →
      Keeps env.isFilter allowed (branchAt E env branches index)
  | [], _, _ => by
    rw [branchAt]
    exact .pure _
  | .mk label args body span :: rest, index, hbranches => by
    obtain ⟨hbody, hrest⟩ := Node.throughoutBranches_cons.mp hbranches
    cases index with
    | zero =>
      rw [branchAt]
      exact nodes_keeps hadmits hE henv hbody
    | succ index =>
      rw [branchAt]
      exact branchAt_keeps hadmits hE henv index hrest

end

end

/-- The outcomes of supplied nodes, however deep references nest. -/
theorem atDepth_keeps (hadmits : Admits allowed) (depth : Nat) :
    (atDepth depth).Keeps allowed := by
  induction depth with
  | zero => exact fun _ _ _ _ => .fail (hadmits.others (by rintro ⟨⟩) rfl)
  | succ depth ih => exact fun _ _ henv hns => nodes_keeps hadmits ih henv hns

end Emission

namespace TemplateSet

variable {s : TemplateSet} {registry : Registry} {allowed : Error → Prop}

/-- The outcomes of compiling a set, given those of its added tags and of inheritance. -/
theorem emitRoot_keeps (hadmits : Emission.Admits allowed)
    (hplans : ∀ ⦃name : String⦄ ⦃tag : CustomTag⦄, registry.tag? name = some (.custom tag) →
      ∀ use, (tag.plan use).FailsWith allowed)
    (hresolve : ∀ t ∈ s.templates, (s.resolve t).FailsWith allowed)
    (htemplates : ∀ t ∈ s.templates, Emission.Supplied allowed registry s t.nodes) (depth : Nat) :
    Emission.Keeps registry.hasFilter allowed
      (s.emitRoot registry (Emission.atDepth depth)) := by
  have hroot : s.root ∈ s.templates := List.mem_cons_self
  refine .inFile (.lift_bind (hresolve _ hroot) fun resolved hresolved => ?_)
  have henv : Emission.Surroundings.Supplied allowed
      { registry, set := s, resolved, including := [s.root.name] } :=
    ⟨hplans, hresolve, htemplates, fun block => throughout_layers htemplates hresolved hroot block⟩
  exact Emission.nodesOf_keeps (Emission.atDepth_keeps hadmits depth) henv
    (throughout_body htemplates hresolved hroot)

/-- What is rejected about a tag does not report a missing template. -/
theorem kind_of_rejection? {n : Node} {fault : Fault} (h : n.rejection? registry = some fault) :
    fault.kind ≠ .templateLoad := by
  unfold Node.rejection? at h
  split at h
  · split at h
    · obtain rfl := Option.some.inj h
      simp [Fault.kind]
    · obtain ⟨b, -, rfl⟩ := Option.map_eq_some_iff.mp h
      simp [Fault.kind]
    · obtain ⟨b, -, rfl⟩ := Option.map_eq_some_iff.mp h
      simp [Fault.kind]
    · cases h
  · cases h

/-- Compiling a closed set never fails for want of a template, unless an added tag says so. -/
theorem Closed.failsOnly_compile (hclosed : s.Closed registry)
    (hinherit : registry.tag? "extends" = some (.builtin .inherit))
    (hplans : ∀ ⦃name : String⦄ ⦃tag : CustomTag⦄, registry.tag? name = some (.custom tag) →
      ∀ use, (tag.plan use).FailsOnly (· ≠ .templateLoad)) (autoescape : Bool) (name : String) :
    (s.compile registry autoescape name).FailsOnly (· ≠ .templateLoad) := by
  have hothers : Emission.OthersAllowed (· ≠ .templateLoad) := fun _ => id
  have htemplates : ∀ t ∈ s.templates,
      Emission.Supplied (fun e => e.kind ≠ .templateLoad) registry s t.nodes := fun t ht n hn =>
    ⟨fun _ => hclosed t ht n hn, fun hfault template => by
      rw [Error.kind_locate]
      exact kind_of_rejection? hfault⟩
  have hkeeps := emitRoot_keeps hothers.admits hplans
    (fun _ ht => hclosed.failsOnly_resolve hinherit hothers ht) htemplates referenceBudget
  exact Result.FailsWith.bind (fun e he => hkeeps.errors he) fun _ _ => .ok _

/-- Every filter that a compiled program applies is known. -/
theorem hasFilter_of_compileAt {autoescape : Bool} {name : String} {depth : Nat} {p : Program}
    (h : s.compileAt registry autoescape name depth = .ok p) :
    ∀ f ∈ p.filters, registry.hasFilter f = true := by
  obtain ⟨⟨main, t⟩, hemit, h⟩ := Result.bind_eq_ok.mp h
  obtain rfl := Except.ok.inj h
  have hkeeps : Emission.Keeps registry.hasFilter (fun _ => True)
      (s.emitRoot registry (Emission.atDepth depth)) :=
    emitRoot_keeps ⟨fun _ _ => trivial, fun _ _ _ => trivial⟩ (fun _ _ _ _ _ _ => trivial)
      (fun _ _ _ _ => trivial)
      (fun _ _ _ _ => ⟨fun hmissing => absurd (fun _ => trivial) hmissing, fun _ _ => trivial⟩)
      depth
  intro f hf
  rcases hkeeps.filters hemit f hf with hbefore | hknown
  · simp at hbefore
  · exact hknown

end TemplateSet

end Templating
