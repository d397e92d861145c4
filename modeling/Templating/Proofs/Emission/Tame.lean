import Templating.Proofs.Emission.Escaping
import Templating.Proofs.Emission.Templates

/-!
# Code of tame templates

The code of every template that is tame at every place is sealed, at every depth of references. As
for the shape of code, the induction follows the nodes, and what is elsewhere is taken care of by an
induction on the depth around it.
-/

namespace Templating

namespace Emission

open Node (Throughout ThroughoutBranches)

variable {s t u : EmissionState} {code : Fragment}

/-- Nodes that make no markup at any place. -/
def Tame : List Node → Prop := Throughout fun n => n.isTame = true

/-- There are built-in tags and filters only, and the templates and the blocks that emission may be
led to are tame. -/
structure Surroundings.Tame (env : Surroundings) : Prop where
  initial : env.registry = .initial
  templates : ∀ t ∈ env.set.templates, Emission.Tame t.nodes
  layers : ∀ block, ∀ layer ∈ env.resolved.layers block, Emission.Tame layer.body

/-- The code of tame nodes at other places is sealed. -/
def Elsewhere.Seals (E : Elsewhere) : Prop :=
  ∀ {env : Surroundings} {nodes : List Node} {s t : EmissionState} {code : Fragment},
    env.Tame → Tame nodes → E env nodes s = .ok (code, t) → Sealed s t code

/-- Letting macros see each other leaves their code as it is. -/
theorem mem_foldl_modify {imported pairs : List (String × Nat)} {table : Array MacroDecl}
    {decl : MacroDecl}
    (h : decl ∈ pairs.foldl (fun (table : Array MacroDecl) (_, id) =>
      table.modify id fun decl => { decl with siblings := imported }) table) :
    ∃ decl' ∈ table, decl'.code = decl.code := by
  induction pairs generalizing table with
  | nil => exact ⟨decl, h, rfl⟩
  | cons pair rest ih =>
    obtain ⟨decl', hdecl', hcode⟩ := ih h
    obtain ⟨i, hi, rfl⟩ := Array.mem_iff_getElem.mp hdecl'
    rw [Array.getElem_modify] at hcode
    rw [Array.size_modify] at hi
    refine ⟨table[i], Array.getElem_mem hi, ?_⟩
    split at hcode <;> exact hcode

/-- Letting imported macros see each other leaves the code of all macros clean. -/
theorem shareMacros_grows {imported : List (String × Nat)} {a : Unit}
    (h : shareMacros imported s = .ok (a, t)) : s.Grows t ∧ t.next = s.next := by
  obtain rfl : _ = t := (Prod.mk.inj (Except.ok.inj h)).2
  refine ⟨⟨List.prefix_rfl, fun hs decl hdecl setting hsetting hcode => ?_⟩, rfl⟩
  obtain ⟨decl', hdecl', hsame⟩ := mem_foldl_modify hdecl
  rw [← hsame] at hcode ⊢
  exact hs decl' hdecl' setting hsetting hcode

section

variable {E : Elsewhere} {env : Surroundings} (hE : E.Seals) (henv : env.Tame)

include hE henv

/-- The macros of a template are added to the table. -/
theorem macrosOf_grows {nodes : List Node} {imported : List (String × Nat)}
    (hnodes : Tame nodes) (h : macrosOf E env nodes s = .ok (imported, t)) :
    s.Grows t ∧ t.next = s.next := by
  induction nodes generalizing s imported with
  | nil =>
    obtain ⟨rfl, rfl⟩ := pure_eq_ok.mp h
    exact ⟨.refl s, rfl⟩
  | cons n rest ih =>
    obtain ⟨hn, hrest⟩ := Node.throughout_cons.mp hnodes
    cases n with
    | literal text span => exact ih hrest h
    | output subject filters span => exact ih hrest h
    | tag name args body branches span =>
      rw [macrosOf] at h
      split at h
      · simp only [bind_eq_ok, setLine_eq_ok] at h
        obtain ⟨_, _, rfl, h⟩ := h
        have hline : s.Grows { s with line := span.start.line } := .of_tables_eq rfl rfl
        cases hsignature : macroSignature? args with
        | some signature =>
          simp only [hsignature, bind_eq_ok, placed_eq_ok, pure_eq_ok] at h
          obtain ⟨id, u, hid, more, v, hmore, rfl, rfl⟩ := h
          obtain ⟨_, hbody, _⟩ := Node.throughout_tag.mp hn
          obtain ⟨hgrows, hnext⟩ := macroCode_grows hid fun hs => hE henv hbody hs
          obtain ⟨hgrows', hnext'⟩ := ih hrest hmore
          exact ⟨(hline.trans hgrows).trans hgrows', hnext'.trans hnext⟩
        | none =>
          rw [hsignature] at h
          obtain ⟨hgrows, hnext⟩ := ih hrest h
          exact ⟨hline.trans hgrows, hnext⟩
      · exact ih hrest h

omit hE henv in
/-- The code of imported macros. -/
theorem macroPairs_sealed {imported : List (String × Nat)}
    (h : macroPairs imported s = .ok (code, t)) : Sealed s t code := by
  induction imported generalizing s code with
  | nil =>
    obtain ⟨rfl, rfl⟩ := pure_eq_ok.mp h
    exact .nil s
  | cons pair rest ih =>
    simp only [macroPairs, bind_eq_ok, pure_eq_ok] at h
    obtain ⟨key, u, hkey, value, v, hvalue, more, w, hmore, rfl, rfl⟩ := h
    have hkey := op_sealed hkey (fun _ => Value.inert_ofString.mpr (by simp)) rfl
    exact (hkey.append (op_sealed hvalue (fun _ => trivial) rfl)).append (ih hmore)

/-- The code of the imported macros of a template. -/
theorem importTemplate_sealed {name : String} (h : importTemplate E env name s = .ok (code, t)) :
    Sealed s t code := by
  cases hget : env.set.get? name with
  | none => simp [importTemplate, hget, fail_eq_ok] at h
  | some template =>
    have htame := henv.templates template (TemplateSet.mem_of_get? hget).1
    simp only [importTemplate, hget, bind_eq_ok, pure_eq_ok, inFile_eq_ok] at h
    obtain ⟨⟨count, pairs⟩, _,
      ⟨u, ⟨imported, v, himported, _, w, hshare, pairs', x, hpairs, heq, rfl⟩, rfl⟩,
      last, y, hlast, rfl, rfl⟩ := h
    obtain ⟨rfl, rfl⟩ := Prod.mk.inj heq
    obtain ⟨hgrows, hnext⟩ := macrosOf_grows hE henv htame himported
    obtain ⟨hgrows', hnext'⟩ := shareMacros_grows hshare
    have hinner : Sealed (entered s template.name) x pairs' :=
      (macroPairs_sealed hpairs).afterGrows (hnext'.trans hnext) (hgrows.trans hgrows')
    exact (inFile_sealed hinner).append (op_sealed hlast (fun _ => trivial) rfl)

/-- The code of tame nodes from several templates. -/
theorem nodesOf_sealed {rows : List (String × Node)} (hrows : ∀ row ∈ rows, Tame [row.2])
    (h : nodesOf E env rows s = .ok (code, t)) : Sealed s t code := by
  induction rows generalizing s code with
  | nil =>
    obtain ⟨rfl, rfl⟩ := pure_eq_ok.mp h
    exact .nil s
  | cons row rest ih =>
    obtain ⟨hrow, hrest⟩ := List.forall_mem_cons.mp hrows
    simp only [nodesOf, bind_eq_ok, pure_eq_ok, inFile_eq_ok] at h
    obtain ⟨first, _, ⟨u, hfirst, rfl⟩, second, v, hsecond, rfl, rfl⟩ := h
    have hfirst : Sealed (entered s row.1) u first := hE henv hrow hfirst
    exact (inFile_sealed hfirst).append (ih hrest hsecond)

/-- The code of a definition of a block. -/
theorem blockLayer_sealed {name : String} {index : Nat}
    (h : blockLayer E env name index s = .ok (code, t)) : Sealed s t code := by
  cases hlayer : (env.resolved.layers name)[index]? with
  | none =>
    simp only [blockLayer, hlayer, pure_eq_ok] at h
    obtain ⟨rfl, rfl⟩ := h
    exact .nil s
  | some layer =>
    simp only [blockLayer, hlayer, inFile_eq_ok] at h
    obtain ⟨u, hbody, rfl⟩ := h
    have hinner : Surroundings.Tame { env with blocks := (name, index) :: env.blocks } :=
      ⟨henv.initial, henv.templates, henv.layers⟩
    have hbody : Sealed (entered s layer.template) u code :=
      hE hinner (henv.layers name layer (List.mem_of_getElem? hlayer)) hbody
    exact inFile_sealed hbody

/-- The code of the next less derived definition. -/
theorem parentLayer_sealed (h : parentLayer E env s = .ok (code, t)) : Sealed s t code := by
  cases hblocks : env.blocks with
  | nil => simp [parentLayer, hblocks, bind_eq_ok, fail_eq_ok] at h
  | cons block rest =>
    rw [parentLayer, hblocks] at h
    exact blockLayer_sealed hE henv h

omit hE in
/-- What inheritance makes of a tame set is tame. -/
theorem Surroundings.Tame.resolved {template : Template} {resolved : Resolved}
    (hresolve : env.set.resolve template = .ok resolved)
    (htemplate : template ∈ env.set.templates) (blocks : List (String × Nat))
    (including : List String) :
    Surroundings.Tame { env with resolved, blocks, including } ∧
      ∀ row ∈ resolved.body, Emission.Tame [row.2] :=
  ⟨⟨henv.initial, henv.templates, fun block =>
      TemplateSet.throughout_layers henv.templates hresolve htemplate block⟩,
    TemplateSet.throughout_body henv.templates hresolve htemplate⟩

/-- The code of an included template. -/
theorem insertTemplate_sealed {name : String} {value? : Option Expr} {isolated isOptional : Bool}
    (hvalue : ∀ e ∈ value?, e.isTame = true)
    (h : insertTemplate E env name value? isolated isOptional s = .ok (code, t)) :
    Sealed s t code := by
  cases insertedCode_of_eq_ok h with
  | missing => exact .nil s
  | @inserted _ _ _ _ _ _ template _ hget _ hresolved hframe hbody hpop =>
    obtain ⟨hinner, hrows⟩ := henv.resolved hresolved (TemplateSet.mem_of_get? hget).1 []
      (template.name :: env.including)
    have hbody := nodesOf_sealed hE hinner hrows hbody
    refine Sealed.append (.append ?_ hbody) (op_sealed hpop (fun _ => trivial) rfl)
    cases value? with
    | some e =>
      simp only [includeFrame, bind_eq_ok, pure_eq_ok] at hframe
      obtain ⟨value, y, hvalueCode, push, z, hpush, rfl, rfl⟩ := hframe
      exact (expr_sealed (hvalue e rfl) hvalueCode).append
        (op_sealed hpush (fun _ => trivial) rfl)
    | none =>
      cases isolated with
      | true =>
        simp only [includeFrame, if_true, bind_eq_ok, pure_eq_ok] at hframe
        obtain ⟨value, y, hvalueCode, push, z, hpush, rfl, rfl⟩ := hframe
        exact (op_sealed hvalueCode (fun _ => Value.inert_null) rfl).append
          (op_sealed hpush (fun _ => trivial) rfl)
      | false => exact op_sealed hframe (fun _ => trivial) rfl

end

mutual

/-- The code of a tame node. -/
theorem node_sealed {E : Elsewhere} {env : Surroundings} (hE : E.Seals) (henv : env.Tame) :
    ∀ {n : Node} {s t : EmissionState} {code : Fragment},
    Tame [n] → node E env n s = .ok (code, t) → Sealed s t code
  | .literal text span, s, t, code, hn, h => by
    have hn : Node.isTame (.literal text span) = true := hn _ (by simp [Node.everywhere])
    rw [Node.isTame, Bool.and_eq_true, Node.isUnmarked, decide_eq_true_eq] at hn
    simp only [node, bind_eq_ok, setLine_eq_ok] at h
    obtain ⟨_, _, rfl, h⟩ := h
    split at h
    · obtain ⟨rfl, rfl⟩ := pure_eq_ok.mp h
      exact (Sealed.nil _).afterLine
    · exact (op_sealed h (fun _ => hn.1) rfl).afterLine
  | .output subject filters span, s, t, code, hn, h => by
    have hn : Node.isTame (.output subject filters span) = true := hn _ (by simp [Node.everywhere])
    simp only [Node.isTame, Node.isUnmarked, Bool.and_eq_true] at hn
    simp only [node, bind_eq_ok, setLine_eq_ok, placed_eq_ok] at h
    obtain ⟨_, _, rfl, h⟩ := h
    exact (output_sealed hn.1.1 hn.1.2 h).afterLine
  | .tag name args body branches span, s, t, code, hn, h => by
    obtain ⟨hn, hbody, hbranches⟩ := Node.throughout_tag.mp hn
    simp only [Node.isTame, Node.isUnmarked, Node.filtersSafely, Bool.and_eq_true, bne_iff_ne,
      Bool.or_eq_true] at hn
    obtain ⟨⟨⟨⟨hmode, hargs⟩, hlabels⟩, -⟩, hfilter⟩ := hn
    have hlabels : ∀ b ∈ branches, b.args.all TagArg.isTame = true := List.all_eq_true.mp hlabels
    have hnodes : ∀ {s t : EmissionState} {code : Fragment},
        nodes E env body s = .ok (code, t) → Sealed s t code := fun h =>
      nodes_sealed hE henv hbody h
    have hbranch : ∀ {index : Nat} {s t : EmissionState} {code : Fragment},
        branchAt E env branches index s = .ok (code, t) → Sealed s t code := fun h =>
      branchAt_sealed hE henv hbranches h
    have hbuiltin : ∀ tag, env.registry.tag? name ≠ some (.custom tag) := henv.initial ▸
      Node.isBuiltin_initial (.tag name args body branches span)
    obtain ⟨tag, tags, htag, hcode⟩ := exists_tagCode h hbuiltin
    obtain ⟨_, heq, rfl⟩ := Registry.tag?_initial (henv.initial ▸ htag)
    obtain rfl := Tag.builtin.inj heq
    refine Sealed.afterGrows ?_ (t := { s with line := span.start.line, tags }) rfl
      (.of_tables_eq rfl rfl)
    cases hcode with
    | inherit => exact .nil _
    | block _ hcode => exact blockLayer_sealed hE henv hcode
    | parent hcode => exact parentLayer_sealed hE henv hcode
    | @cond _ _ u _ _ _ _ _ onFalse _ hcondition htest hyes hrest =>
      have htest := expr_sealed (isTame_of_head hargs hcondition) htest
      obtain ⟨hrest, hentry⟩ := alternatives_sealed hE henv hlabels hbranches hrest
      have hchoice := (hnodes hyes).choice (i := .jumpIfFalse onFalse) (l := u.line)
        (fun _ => trivial) rfl hrest hentry
      simpa [List.append_assoc] using htest.append hchoice
    | loop _ hcode => exact loop_sealed hargs hnodes (fun hother => by simp at hother) hcode
    | loopOrElse _ hcode =>
      refine loop_sealed hargs hnodes (fun hother => ?_) hcode
      obtain rfl := Option.some.inj hother
      exact hbranch
    | assign hcode => exact assignment_sealed hargs hcode
    | insert _ hcode =>
      refine insertTemplate_sealed hE henv (fun e hvalue => ?_) hcode
      obtain ⟨arg, harg, hvalue⟩ := List.exists_of_findSome?_eq_some hvalue
      cases arg with
      | expr e' =>
        obtain rfl := Option.some.inj hvalue
        exact isTame_of_mem hargs harg
      | _ => simp [TagArg.asExpr?] at hvalue
    | importMacros _ hmacros hstore =>
      exact (importTemplate_sealed hE henv hmacros).append
        (op_sealed hstore (fun _ => trivial) rfl)
    | defineMacro _ hid hbuild hstore =>
      obtain ⟨hgrows, hnext⟩ := macroCode_grows hid hnodes
      have hbuild := op_sealed hbuild (fun _ => trivial) rfl
      exact (hbuild.append (op_sealed hstore (fun _ => trivial) rfl)).afterGrows hnext hgrows
    | filter hcode => exact filtered_sealed hargs (hfilter.resolve_left fun h => h rfl) hnodes hcode
    | escaping => exact (hmode rfl).elim

/-- The code of tame nodes one after the other. -/
theorem nodes_sealed {E : Elsewhere} {env : Surroundings} (hE : E.Seals) (henv : env.Tame) :
    ∀ {ns : List Node} {s t : EmissionState} {code : Fragment},
    Tame ns → nodes E env ns s = .ok (code, t) → Sealed s t code
  | [], s, t, code, _, h => by
    simp only [nodes, pure_eq_ok] at h
    obtain ⟨rfl, rfl⟩ := h
    exact .nil s
  | n :: rest, s, t, code, hns, h => by
    obtain ⟨hn, hrest⟩ := Node.throughout_cons.mp hns
    simp only [nodes, bind_eq_ok, pure_eq_ok] at h
    obtain ⟨first, u, hfirst, second, v, hsecond, rfl, rfl⟩ := h
    exact (node_sealed hE henv hn hfirst).append (nodes_sealed hE henv hrest hsecond)

/-- The code of the branches of a condition, which is also entered where the condition before it
leads when it is false. -/
theorem alternatives_sealed {E : Elsewhere} {env : Surroundings} (hE : E.Seals) (henv : env.Tame) :
    ∀ {branches : List Branch} {s t : EmissionState} {code : Fragment}
    {entry : Nat}, (∀ b ∈ branches, b.args.all TagArg.isTame = true) →
    ThroughoutBranches (fun n => n.isTame = true) branches →
    alternatives E env branches s = .ok ((code, entry), t) →
      Sealed s t code ∧ Enters s.next t code entry
  | [], s, t, code, entry, _, _, h => by
    simp only [alternatives, bind_eq_ok, here_eq_ok, pure_eq_ok] at h
    obtain ⟨_, _, ⟨rfl, rfl⟩, heq, rfl⟩ := h
    obtain ⟨rfl, rfl⟩ := Prod.mk.inj heq
    exact ⟨.nil s, (Sealed.nil s).enters⟩
  | .mk label args body span :: rest, s, t, code, entry, hlabels, hbranches, h => by
    obtain ⟨hbody, hrest⟩ := Node.throughoutBranches_cons.mp hbranches
    obtain ⟨hargs, hlabels⟩ := List.forall_mem_cons.mp hlabels
    simp only [alternatives, bind_eq_ok, setLine_eq_ok, reserve_eq_ok, here_eq_ok] at h
    obtain ⟨_, _, rfl, _, _, ⟨rfl, rfl⟩, _, _, ⟨rfl, rfl⟩, h⟩ := h
    cases hcondition : args.head?.bind TagArg.asExpr? with
    | some condition =>
      simp only [hcondition, bind_eq_ok, reserve_eq_ok, here_eq_ok, pure_eq_ok] at h
      obtain ⟨test, u, htest, _, _, ⟨rfl, rfl⟩, yes, v, hyes, ⟨more, onFalse⟩, w, hmore, _, _,
        ⟨rfl, rfl⟩, heq, rfl⟩ := h
      obtain ⟨rfl, rfl⟩ := Prod.mk.inj heq
      have htest := expr_sealed (isTame_of_head hargs hcondition) htest
      obtain ⟨hmore, hentry⟩ := alternatives_sealed hE henv hlabels hrest hmore
      have hchoice := (nodes_sealed hE henv hbody hyes).choice (i := .jumpIfFalse onFalse)
        (l := u.line) (fun _ => trivial) rfl hmore hentry
      have hskipped := Sealed.skipped (s := s) (l := span.start.line)
        (htest.append hchoice).afterLine
      simpa [List.append_assoc] using hskipped
    | none =>
      simp only [hcondition, bind_eq_ok, here_eq_ok, pure_eq_ok] at h
      obtain ⟨yes, u, hyes, ⟨more, onFalse⟩, v, hmore, _, _, ⟨rfl, rfl⟩, heq, rfl⟩ := h
      obtain ⟨rfl, rfl⟩ := Prod.mk.inj heq
      obtain ⟨hmore, -⟩ := alternatives_sealed hE henv hlabels hrest hmore
      exact Sealed.skipped (s := s) ((nodes_sealed hE henv hbody hyes).append hmore).afterLine

/-- The code of one branch. -/
theorem branchAt_sealed {E : Elsewhere} {env : Surroundings} (hE : E.Seals) (henv : env.Tame) :
    ∀ {branches : List Branch} {index : Nat} {s t : EmissionState}
    {code : Fragment}, ThroughoutBranches (fun n => n.isTame = true) branches →
    branchAt E env branches index s = .ok (code, t) → Sealed s t code
  | [], index, s, t, code, _, h => by
    simp only [branchAt, pure_eq_ok] at h
    obtain ⟨rfl, rfl⟩ := h
    exact .nil s
  | .mk label args body span :: rest, 0, s, t, code, hbranches, h => by
    rw [branchAt] at h
    exact nodes_sealed hE henv (Node.throughoutBranches_cons.mp hbranches).1 h
  | .mk label args body span :: rest, index + 1, s, t, code, hbranches, h => by
    rw [branchAt] at h
    exact branchAt_sealed hE henv (Node.throughoutBranches_cons.mp hbranches).2 h

end

/-- The code of tame nodes is sealed, however deep references nest. -/
theorem atDepth_seals (depth : Nat) : (atDepth depth).Seals := by
  induction depth with
  | zero =>
    intro env nodes s t code _ _ h
    simp [atDepth, fail_eq_ok] at h
  | succ depth ih =>
    intro env nodes s t code henv hnodes h
    exact nodes_sealed ih henv hnodes h

end Emission

end Templating
