import Templating.Proofs.Emission.Scopes
import Templating.Proofs.Emission.Tame

/-!
# Code of whole templates is scoped

The nodes of a template, wherever they continue, and the plans of added tags. The induction follows
the nodes, and an induction on the depth of references goes around it.
-/

namespace Templating

namespace Emission

variable {registry : Registry} {s t : EmissionState} {code : Fragment}

/-- Nodes at other places have code that closes what it opens. -/
def Elsewhere.ClosesScopes (E : Elsewhere) (registry : Registry) : Prop :=
  ∀ ⦃env : Surroundings⦄, env.registry = registry → ∀ nodes, Emission.ClosesScopes (E env nodes)

/-- The plan of an added tag leaves so many scopes open as are counted in it. -/
theorem plan_nested {isFilter : String → Bool} {body : Emission Fragment}
    {branch : Nat → Emission Fragment} (hbody : ClosesScopes body)
    (hbranch : ∀ index, ClosesScopes (branch index)) :
    ∀ {steps : List TagStep} {count count' : Nat} {s t : EmissionState} {code : Fragment}
      {opened : List Nat}, TagStep.openAfter count steps = some count' → opened.length = count →
      plan isFilter body branch steps s = .ok (code, t) →
        ∃ left : List Nat, left.length = count' ∧ ∀ a, Nested s t code (opened ++ a) (left ++ a)
  | [], count, count', s, t, code, opened, hcount, hopened, h => by
    rw [plan] at h
    obtain ⟨rfl, rfl⟩ := pure_eq_ok.mp h
    obtain rfl : count = count' := by simpa [TagStep.openAfter] using hcount
    exact ⟨opened, hopened, fun _ => .nil s⟩
  | step :: rest, count, count', s, t, code, opened, hcount, hopened, h => by
    -- a step that closes what it opens, and the rest of the plan behind it
    have hkeeps {e : Emission Fragment} (he : ClosesScopes e)
        (hrest : TagStep.openAfter count rest = some count')
        (h : (do return (← e) ++ (← plan isFilter body branch rest) : Emission Fragment) s =
          .ok (code, t)) :
        ∃ left : List Nat, left.length = count' ∧
          ∀ a, Nested s t code (opened ++ a) (left ++ a) := by
      simp only [bind_eq_ok, pure_eq_ok] at h
      obtain ⟨first, u, hfirst, second, v, hsecond, rfl, rfl⟩ := h
      obtain ⟨left, hleft, hsecond⟩ := plan_nested hbody hbranch hrest hopened hsecond
      exact ⟨left, hleft, fun a => (he hfirst _).append (hsecond a)⟩
    have hvalue {i : Instruction} {n : Nat} (hi : i.gives? = some n) : ClosesScopes (op i) :=
      fun _ _ _ h _ => value_nested h hi
    cases step with
    | raw text =>
      simp only [TagStep.openAfter] at hcount
      rw [plan] at h
      split at h
      · exact hkeeps (e := pure []) (fun _ _ _ h _ => by
          obtain ⟨rfl, rfl⟩ := pure_eq_ok.mp h
          exact .nil _) hcount h
      · exact hkeeps (hvalue rfl) hcount h
    | expr e =>
      simp only [TagStep.openAfter] at hcount
      rw [plan] at h
      exact hkeeps (fun _ _ _ h _ => expr_nested h) hcount h
    | constant v | write | store name =>
      simp only [TagStep.openAfter] at hcount
      rw [plan] at h
      exact hkeeps (hvalue rfl) hcount h
    | filter name args =>
      simp only [TagStep.openAfter] at hcount
      rw [plan] at h
      exact hkeeps (fun _ _ _ h _ => applyFilter_nested h) hcount h
    | beginCapture =>
      simp only [TagStep.openAfter] at hcount
      rw [plan] at h
      exact hkeeps (e := op .beginCapture) (fun _ _ _ h a => op_nested (a := a) h rfl (by simp))
        hcount h
    | endCapture =>
      simp only [TagStep.openAfter] at hcount
      rw [plan] at h
      exact hkeeps (e := op .endCapture) (fun _ _ _ h a => op_nested (a := a) h rfl (by simp))
        hcount h
    | body =>
      simp only [TagStep.openAfter] at hcount
      rw [plan] at h
      exact hkeeps hbody hcount h
    | branch index =>
      simp only [TagStep.openAfter] at hcount
      rw [plan] at h
      exact hkeeps (hbranch index) hcount h
    | pushScope =>
      simp only [TagStep.openAfter] at hcount
      simp only [plan, bind_eq_ok, pure_eq_ok] at h
      obtain ⟨push, u, hpush, second, v, hsecond, rfl, rfl⟩ := h
      have hmore : (s.next :: opened).length = count + 1 := congrArg Nat.succ hopened
      obtain ⟨left, hleft, hsecond⟩ := plan_nested hbody hbranch hcount hmore hsecond
      exact ⟨left, hleft, fun a => (op_nested hpush rfl (by simp)).append (hsecond a)⟩
    | popScope =>
      cases opened with
      | nil =>
        obtain rfl : 0 = count := hopened
        simp [TagStep.openAfter] at hcount
      | cons opener opened =>
        obtain rfl : opened.length + 1 = count := hopened
        simp only [TagStep.openAfter] at hcount
        simp only [plan, bind_eq_ok, pure_eq_ok] at h
        obtain ⟨pop, u, hpop, second, v, hsecond, rfl, rfl⟩ := h
        obtain ⟨left, hleft, hsecond⟩ := plan_nested hbody hbranch hcount rfl hsecond
        refine ⟨left, hleft, fun a => ?_⟩
        have hpop : Nested s u pop (opener :: opened ++ a) (opened ++ a) :=
          op_nested hpop rfl fun _ => List.cons_ne_nil _ _
        exact hpop.append (hsecond a)
    | choose ifTrue ifFalse =>
      simp only [TagStep.openAfter] at hcount
      split at hcount
      · rename_i hbalanced
        simp only [plan, bind_eq_ok, reserve_eq_ok, here_eq_ok, pure_eq_ok] at h
        obtain ⟨_, _, ⟨rfl, rfl⟩, yes, u, hyes, _, _, ⟨rfl, rfl⟩, _, _, ⟨rfl, rfl⟩, no, v, hno,
          _, _, ⟨rfl, rfl⟩, _, _, ⟨rfl, rfl⟩, second, w, hsecond, rfl, rfl⟩ := h
        obtain ⟨_, hyesLeft, hyes⟩ := plan_nested hbody hbranch hbalanced.1 List.length_nil hyes
        obtain ⟨_, hnoLeft, hno⟩ := plan_nested hbody hbranch hbalanced.2 List.length_nil hno
        obtain rfl := List.eq_nil_of_length_eq_zero hyesLeft
        obtain rfl := List.eq_nil_of_length_eq_zero hnoLeft
        obtain ⟨left, hleft, hsecond⟩ := plan_nested hbody hbranch hcount hopened hsecond
        refine ⟨left, hleft, fun a => ?_⟩
        exact (choice_nested _ (hyes (opened ++ a)) (.some (hno (opened ++ a)))).append (hsecond a)
      · simp at hcount

section

variable {E : Elsewhere} {env : Surroundings} (hE : E.ClosesScopes registry)
  (henv : env.registry = registry)

include hE henv

/-- The macros of a template are added to the table. -/
theorem macrosOf_wellScoped {nodes : List Node} {imported : List (String × Nat)}
    (h : macrosOf E env nodes s = .ok (imported, t)) :
    t.next = s.next ∧ (s.WellScoped → t.WellScoped) := by
  induction nodes generalizing s imported with
  | nil =>
    obtain ⟨rfl, rfl⟩ := pure_eq_ok.mp h
    exact ⟨rfl, id⟩
  | cons n rest ih =>
    cases n with
    | literal text span => exact ih h
    | output subject filters span => exact ih h
    | tag name args body branches span =>
      rw [macrosOf] at h
      split at h
      · simp only [bind_eq_ok, setLine_eq_ok] at h
        obtain ⟨_, _, rfl, h⟩ := h
        cases hsignature : macroSignature? args with
        | some signature =>
          simp only [hsignature, bind_eq_ok, placed_eq_ok, pure_eq_ok] at h
          obtain ⟨id, u, hid, more, v, hmore, rfl, rfl⟩ := h
          obtain ⟨hnext, hmacros⟩ := macroCode_wellScoped (hE henv body) hid
          obtain ⟨hnext', hmacros'⟩ := ih hmore
          exact ⟨hnext'.trans hnext, hmacros' ∘ hmacros⟩
        | none =>
          rw [hsignature] at h
          exact ih (s := { s with line := span.start.line }) h
      · exact ih h

omit hE henv in
/-- The code of imported macros. -/
theorem macroPairs_nested {imported : List (String × Nat)} :
    ClosesScopes (macroPairs imported) := by
  induction imported with
  | nil =>
    intro s t code h a
    obtain ⟨rfl, rfl⟩ := pure_eq_ok.mp h
    exact .nil s
  | cons pair rest ih =>
    intro s t code h a
    simp only [macroPairs, bind_eq_ok, pure_eq_ok] at h
    obtain ⟨key, u, hkey, value, v, hvalue, more, w, hmore, rfl, rfl⟩ := h
    exact ((value_nested hkey rfl).append (value_nested hvalue rfl)).append (ih hmore a)

omit hE henv in
/-- Letting macros see each other leaves their code as it is. -/
theorem shareMacros_wellScoped {imported : List (String × Nat)} {a : Unit}
    (h : shareMacros imported s = .ok (a, t)) :
    t.next = s.next ∧ (s.WellScoped → t.WellScoped) := by
  obtain rfl : _ = t := (Prod.mk.inj (Except.ok.inj h)).2
  refine ⟨rfl, fun hs decl hdecl => ?_⟩
  obtain ⟨decl', hdecl', hcode⟩ := mem_foldl_modify hdecl
  rw [← hcode]
  exact hs decl' hdecl'

/-- The code of the imported macros of a template. -/
theorem importTemplate_nested {name : String} : ClosesScopes (importTemplate E env name) := by
  intro s t code h a
  cases hget : env.set.get? name with
  | none => simp [importTemplate, hget, fail_eq_ok] at h
  | some template =>
    simp only [importTemplate, hget, bind_eq_ok, pure_eq_ok, inFile_eq_ok] at h
    obtain ⟨⟨count, pairs⟩, _,
      ⟨u, ⟨imported, v, himported, _, w, hshare, pairs', x, hpairs, heq, rfl⟩, rfl⟩,
      last, y, hlast, rfl, rfl⟩ := h
    obtain ⟨rfl, rfl⟩ := Prod.mk.inj heq
    obtain ⟨hnext, hmacros⟩ := macrosOf_wellScoped hE henv himported
    obtain ⟨hnext', hmacros'⟩ := shareMacros_wellScoped hshare
    have hpairs := (macroPairs_nested hpairs a).behind (hnext'.trans hnext) (hmacros' ∘ hmacros)
    have hinner : Nested s { x with file := s.file } pairs' a a :=
      ⟨hpairs.next, hpairs.macros, hpairs.scopes⟩
    exact hinner.append (value_nested hlast rfl)

/-- The code of nodes from several templates. -/
theorem nodesOf_nested {rows : List (String × Node)} : ClosesScopes (nodesOf E env rows) := by
  induction rows with
  | nil =>
    intro s t code h a
    obtain ⟨rfl, rfl⟩ := pure_eq_ok.mp h
    exact .nil s
  | cons row rest ih =>
    intro s t code h a
    simp only [nodesOf, bind_eq_ok, pure_eq_ok] at h
    obtain ⟨first, u, hfirst, second, v, hsecond, rfl, rfl⟩ := h
    exact (inFile_nested (hE henv [row.2]) hfirst a).append (ih hsecond a)

/-- The code of one definition of a block. -/
theorem blockLayer_nested {name : String} {index : Nat} :
    ClosesScopes (blockLayer E env name index) := by
  intro s t code h a
  cases hlayer : (env.resolved.layers name)[index]? with
  | none =>
    simp only [blockLayer, hlayer, pure_eq_ok] at h
    obtain ⟨rfl, rfl⟩ := h
    exact .nil s
  | some layer =>
    simp only [blockLayer, hlayer] at h
    have hinner : ({ env with blocks := (name, index) :: env.blocks } : Surroundings).registry =
        registry := henv
    exact inFile_nested (hE hinner layer.body) h a

/-- The code of the next less derived definition. -/
theorem parentLayer_nested : ClosesScopes (parentLayer E env) := by
  intro s t code h a
  cases hblocks : env.blocks with
  | nil => simp [parentLayer, hblocks, bind_eq_ok, fail_eq_ok] at h
  | cons block rest =>
    rw [parentLayer, hblocks] at h
    exact blockLayer_nested hE henv h a

/-- The code of an included template closes the scope it runs in. -/
theorem insertTemplate_nested {name : String} {value? : Option Expr} {isolated isOptional : Bool} :
    ClosesScopes (insertTemplate E env name value? isolated isOptional) := by
  intro s t code h a
  cases insertedCode_of_eq_ok h with
  | missing => exact .nil s
  | @inserted _ u v frame body pop _ _ _ _ _ hframe hbody hpop =>
    obtain ⟨opener, hframe⟩ : ∃ opener, Nested s u frame a (opener :: a) := by
      cases value? with
      | some e =>
        simp only [includeFrame, bind_eq_ok, pure_eq_ok] at hframe
        obtain ⟨value, w, hvalue, push, x, hpush, rfl, rfl⟩ := hframe
        exact ⟨w.next, (expr_nested hvalue).append (op_nested hpush rfl nofun)⟩
      | none =>
        cases isolated with
        | true =>
          simp only [includeFrame, if_true, bind_eq_ok, pure_eq_ok] at hframe
          obtain ⟨value, w, hvalue, push, x, hpush, rfl, rfl⟩ := hframe
          exact ⟨w.next, (value_nested hvalue rfl).append (op_nested hpush rfl nofun)⟩
        | false => exact ⟨s.next, op_nested hframe rfl nofun⟩
    have hbody : Nested u v body (opener :: a) (opener :: a) :=
      nodesOf_nested hE (by exact henv) hbody (opener :: a)
    have hpop : Nested v t pop (opener :: a) a := op_nested hpop rfl fun _ => List.cons_ne_nil _ _
    exact (hframe.append hbody).append hpop

end

mutual

/-- The code of a node closes what it opens. -/
theorem node_nested {E : Elsewhere} {env : Surroundings} (hE : E.ClosesScopes registry)
    (henv : env.registry = registry) (htags : registry.ClosesScopes) :
    ∀ n : Node, ClosesScopes (node E env n)
  | .literal text span => by
    intro s t code h a
    simp only [node, bind_eq_ok, setLine_eq_ok] at h
    obtain ⟨_, _, rfl, h⟩ := h
    split at h
    · obtain ⟨rfl, rfl⟩ := pure_eq_ok.mp h
      exact (Nested.nil _).afterLine
    · exact (value_nested h rfl).afterLine
  | .output subject filters span => by
    intro s t code h a
    simp only [node, bind_eq_ok, setLine_eq_ok, placed_eq_ok] at h
    obtain ⟨_, _, rfl, h⟩ := h
    exact (output_nested h).afterLine
  | .tag name args body branches span => by
    intro s t code h a
    have hnodes := nodes_nested hE henv htags body
    have hbranch := branchAt_nested hE henv htags branches
    by_cases hcustom : ∃ tag, env.registry.tag? name = some (.custom tag)
    · obtain ⟨tag, htag⟩ := hcustom
      simp only [node, bind_eq_ok, setLine_eq_ok, placed_eq_ok] at h
      obtain ⟨_, _, rfl, h⟩ := h
      obtain ⟨tags, h⟩ := noted_eq_ok h
      simp only [htag, bind_eq_ok] at h
      obtain ⟨steps, u, hlift, h⟩ := h
      obtain ⟨hsteps, rfl⟩ := lift_eq_ok.mp hlift
      obtain ⟨_, hleft, hcode⟩ := plan_nested hnodes hbranch
        (htags (henv ▸ htag) hsteps) List.length_nil h
      obtain rfl := List.eq_nil_of_length_eq_zero hleft
      exact (hcode a).behind rfl id
    · obtain ⟨tag, tags, htag, hcode⟩ := exists_tagCode h fun tag htag => hcustom ⟨tag, htag⟩
      refine Nested.behind (t := { s with line := span.start.line, tags }) ?_ rfl id
      cases hcode with
      | inherit => exact .nil _
      | block _ hcode => exact blockLayer_nested hE henv hcode a
      | parent hcode => exact parentLayer_nested hE henv hcode a
      | @cond _ _ u _ _ _ _ _ onFalse _ hcondition htest hyes hrest =>
        have hrest := alternatives_nested hE henv htags hrest a
        have hchoice := choice_nested u.line (hnodes hyes a) hrest
        simpa [List.append_assoc] using (expr_nested htest).append hchoice
      | loop _ hcode => exact loop_nested hnodes (fun _ hother => by simp at hother) hcode a
      | loopOrElse _ hcode =>
        refine loop_nested hnodes (fun other hother => ?_) hcode a
        obtain rfl := Option.some.inj hother
        exact hbranch 0
      | assign hcode => exact assignment_nested hcode a
      | insert _ hcode => exact insertTemplate_nested hE henv hcode a
      | importMacros _ hmacros hstore =>
        exact (importTemplate_nested hE henv hmacros a).append (value_nested hstore rfl)
      | defineMacro _ hid hbuild hstore =>
        obtain ⟨hnext, hmacros⟩ := macroCode_wellScoped hnodes hid
        exact ((value_nested hbuild rfl).append (value_nested hstore rfl)).behind hnext hmacros
      | filter hcode => exact filtered_nested hnodes hcode a
      | escaping hcode => exact escaping_nested hnodes hcode a

/-- The code of nodes one after the other closes what it opens. -/
theorem nodes_nested {E : Elsewhere} {env : Surroundings} (hE : E.ClosesScopes registry)
    (henv : env.registry = registry) (htags : registry.ClosesScopes) :
    ∀ ns : List Node, ClosesScopes (nodes E env ns)
  | [] => by
    intro s t code h a
    simp only [nodes, pure_eq_ok] at h
    obtain ⟨rfl, rfl⟩ := h
    exact .nil s
  | n :: rest => by
    intro s t code h a
    simp only [nodes, bind_eq_ok, pure_eq_ok] at h
    obtain ⟨first, u, hfirst, second, v, hsecond, rfl, rfl⟩ := h
    exact (node_nested hE henv htags n hfirst a).append (nodes_nested hE henv htags rest hsecond a)

/-- The code of the branches of a condition follows what comes before it. -/
theorem alternatives_nested {E : Elsewhere} {env : Surroundings} (hE : E.ClosesScopes registry)
    (henv : env.registry = registry) (htags : registry.ClosesScopes) :
    ∀ {branches : List Branch} {s t : EmissionState} {code : Fragment} {onFalse : Nat},
      alternatives E env branches s = .ok ((code, onFalse), t) →
        ∀ a, Otherwise s t a code onFalse
  | [], s, t, code, onFalse, h, a => by
    simp only [alternatives, bind_eq_ok, here_eq_ok, pure_eq_ok] at h
    obtain ⟨_, _, ⟨rfl, rfl⟩, heq, rfl⟩ := h
    obtain ⟨rfl, rfl⟩ := Prod.mk.inj heq
    exact .none rfl
  | .mk label args body span :: rest, s, t, code, onFalse, h, a => by
    have hnodes := nodes_nested hE henv htags body
    simp only [alternatives, bind_eq_ok, setLine_eq_ok, reserve_eq_ok, here_eq_ok] at h
    obtain ⟨_, _, rfl, _, _, ⟨rfl, rfl⟩, _, _, ⟨rfl, rfl⟩, h⟩ := h
    cases hcondition : args.head?.bind TagArg.asExpr? with
    | some condition =>
      simp only [hcondition, bind_eq_ok, reserve_eq_ok, here_eq_ok, pure_eq_ok] at h
      obtain ⟨test, u, htest, _, _, ⟨rfl, rfl⟩, yes, v, hyes, ⟨more, onFalse⟩, w, hmore, _, _,
        ⟨rfl, rfl⟩, heq, rfl⟩ := h
      obtain ⟨rfl, rfl⟩ := Prod.mk.inj heq
      have hmore := alternatives_nested hE henv htags hmore a
      have hwhole := (expr_nested htest).append (choice_nested u.line (hnodes hyes a) hmore)
      simpa [List.append_assoc] using Otherwise.some (s := s) hwhole.afterLine
    | none =>
      simp only [hcondition, bind_eq_ok, here_eq_ok, pure_eq_ok] at h
      obtain ⟨yes, u, hyes, ⟨more, onFalse⟩, v, hmore, _, _, ⟨rfl, rfl⟩, heq, rfl⟩ := h
      obtain ⟨rfl, rfl⟩ := Prod.mk.inj heq
      have hmore := alternatives_nested hE henv htags hmore a
      exact Otherwise.some (s := s) ((hnodes hyes a).append hmore.skipped).afterLine

/-- The code of one branch closes what it opens. -/
theorem branchAt_nested {E : Elsewhere} {env : Surroundings} (hE : E.ClosesScopes registry)
    (henv : env.registry = registry) (htags : registry.ClosesScopes) :
    ∀ (branches : List Branch) (index : Nat), ClosesScopes (branchAt E env branches index)
  | [], index => by
    intro s t code h a
    simp only [branchAt, pure_eq_ok] at h
    obtain ⟨rfl, rfl⟩ := h
    exact .nil s
  | .mk label args body span :: rest, 0 => by
    intro s t code h a
    rw [branchAt] at h
    exact nodes_nested hE henv htags body h a
  | .mk label args body span :: rest, index + 1 => by
    intro s t code h a
    rw [branchAt] at h
    exact branchAt_nested hE henv htags rest index h a

end

/-- The code of nodes closes what it opens, however deep references nest. -/
theorem atDepth_closesScopes (htags : registry.ClosesScopes) (depth : Nat) :
    (atDepth depth).ClosesScopes registry := by
  induction depth with
  | zero =>
    intro env _ nodes s t code h
    simp [atDepth, fail_eq_ok] at h
  | succ depth ih => exact fun env henv nodes => nodes_nested ih henv htags nodes

end Emission

/-- The main code of a compiled program is well scoped, and so is the code of each of its macros. -/
theorem TemplateSet.wellScoped_of_compileAt {s : TemplateSet} {registry : Registry}
    {autoescape : Bool} {name : String} {depth : Nat} {p : Program}
    (htags : registry.ClosesScopes) (h : s.compileAt registry autoescape name depth = .ok p) :
    p.main.WellScoped ∧ ∀ decl ∈ p.macros, decl.code.WellScoped := by
  obtain ⟨⟨main, t⟩, hemit, h⟩ := Result.bind_eq_ok.mp h
  obtain rfl := Except.ok.inj h
  have hroot : Emission.ClosesScopes (s.emitRoot registry (Emission.atDepth depth)) := by
    refine Emission.inFile_nested fun s t code h a => ?_
    obtain ⟨resolved, u, hresolved, h⟩ := Emission.bind_eq_ok.mp h
    obtain ⟨-, rfl⟩ := Emission.lift_eq_ok.mp hresolved
    exact Emission.nodesOf_nested (Emission.atDepth_closesScopes htags depth) rfl h a
  have hmain := hroot hemit []
  exact ⟨Code.wellScoped_ofFragment hmain.scopes, hmain.macros fun decl hdecl => by simp at hdecl⟩

end Templating
