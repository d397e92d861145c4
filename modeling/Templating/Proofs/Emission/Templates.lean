import Templating.Proofs.Emission.Construction
import Templating.Proofs.Emission.TagCode
import Templating.Proofs.Template.Everywhere

/-!
# Code of templates is structured

The code of every template that uses built-in tags only is structured, at every depth of references.
The induction follows the nodes; blocks, parents, includes and imports, which continue at another
place, are taken care of by an induction on the depth around it.
-/

namespace Templating

/-- The tag, if the node is one, is not an added one. -/
def Node.IsBuiltin (registry : Registry) : Node → Prop
  | .tag name .. => ∀ tag, registry.tag? name ≠ some (.custom tag)
  | _ => True

/-- No tag is an added one where no tag was added. -/
theorem Node.isBuiltin_initial (n : Node) : n.IsBuiltin .initial := by
  cases n with
  | literal text span => trivial
  | output subject filters span => trivial
  | tag name args body branches span =>
    intro tag htag
    obtain ⟨t, hbuiltin, -⟩ := Registry.tag?_initial htag
    cases hbuiltin

/-- Every map literal in the expressions of the node is so short that a machine word can count its
keys and values. -/
def Node.Fits : Node → Prop
  | .literal .. => True
  | .output subject filters _ => subject.Fits ∧ Emission.ChainFits filters
  | .tag _ args _ branches _ => Emission.ArgsFit args ∧ ∀ b ∈ branches, Emission.ArgsFit b.args

/-- The template uses built-in tags only, and what is counted in it fits into a machine word. -/
structure Template.Regular (registry : Registry) (t : Template) : Prop where
  builtin : Node.Throughout (Node.IsBuiltin registry) t.nodes
  fits : Node.Throughout Node.Fits t.nodes
  size : t.nodes.length * 2 < UInt64.size

namespace Emission

variable {s t u v : EmissionState} {first second last code : Fragment}

/-- Nodes that use built-in tags only and fit. -/
def Regular (registry : Registry) : List Node → Prop :=
  Node.Throughout fun n => n.IsBuiltin registry ∧ n.Fits

/-- The templates and the blocks that emission may be led to are regular. -/
structure Surroundings.Sound (env : Surroundings) : Prop where
  templates : ∀ t ∈ env.set.templates, t.Regular env.registry
  layers : ∀ block, ∀ layer ∈ env.resolved.layers block, Regular env.registry layer.body

/-- The code of regular nodes at other places leaves the stack as it was. -/
def Elsewhere.Sound (elsewhere : Elsewhere) : Prop :=
  ∀ {env : Surroundings} {nodes : List Node} {s t : EmissionState} {code : Fragment},
    env.Sound → Regular env.registry nodes → elsewhere env nodes s = .ok (code, t) →
      Emitted s t code 0 0

/-- A regular template has regular nodes. -/
theorem regular_nodes {registry : Registry} {t : Template} (h : t.Regular registry) :
    Regular registry t.nodes := fun n hn => ⟨h.builtin n hn, h.fits n hn⟩

/-- Letting macros see each other keeps their number and those in front of them, and leaves them
sound. -/
theorem foldl_modify_siblings (imported pairs : List (String × Nat)) (table : Array MacroDecl) :
    let table' := pairs.foldl
      (fun (table : Array MacroDecl) (_, id) =>
        table.modify id fun decl => { decl with siblings := imported }) table
    table'.size = table.size ∧
      (∀ {front : Nat}, (∀ pair ∈ pairs, front ≤ pair.2) →
        table'.toList.take front = table.toList.take front) ∧
      ∀ {filters macros files : Nat}, (∀ pair ∈ imported, pair.2 < macros) →
        (∀ decl ∈ table, decl.Sound filters macros files) →
          ∀ decl ∈ table', decl.Sound filters macros files := by
  induction pairs generalizing table with
  | nil => exact ⟨rfl, fun _ => rfl, fun _ hsound => hsound⟩
  | cons pair rest ih =>
    obtain ⟨hsize, hfront, hrest⟩ :=
      ih (table.modify pair.2 fun decl => { decl with siblings := imported })
    refine ⟨hsize.trans Array.size_modify, fun {front} hpairs => ?_, fun himported hsound =>
      hrest himported ?_⟩
    · obtain ⟨hpair, hpairs⟩ := List.forall_mem_cons.mp hpairs
      refine (hfront hpairs).trans (List.ext_getElem? fun i => ?_)
      rw [Array.toList_modify, List.getElem?_take, List.getElem?_take, List.getElem?_modify]
      split
      · next hi => simp [Nat.ne_of_gt (Nat.lt_of_lt_of_le hi hpair)]
      · rfl
    · intro decl hdecl
      obtain ⟨i, hi, rfl⟩ := Array.mem_iff_getElem.mp hdecl
      rw [Array.getElem_modify]
      split
      · exact ⟨(hsound _ (Array.getElem_mem _)).code, himported⟩
      · exact hsound _ (Array.getElem_mem _)

/-- Letting macros see each other that were added since a state keeps the macros before. -/
theorem shareMacros_advances {imported : List (String × Nat)} {a : Unit} (hst : s.Advances t 0)
    (himported : ∀ pair ∈ imported, s.macros.size ≤ pair.2 ∧ pair.2 < t.macros.size)
    (h : shareMacros imported t = .ok (a, u)) :
    s.Advances u 0 ∧ u.macros.size = t.macros.size := by
  obtain rfl : _ = u := (Prod.mk.inj (Except.ok.inj h)).2
  obtain ⟨hsize, hfront, hsound⟩ := foldl_modify_siblings imported imported t.macros
  have hkept := hfront fun pair hpair => (himported pair hpair).1
  have hbefore : t.macros.toList.take s.macros.size = s.macros.toList := by
    simpa using (List.prefix_iff_eq_take.mp hst.macros).symm
  refine ⟨⟨hst.next, hst.file, hst.filters, hst.files, ?_, fun hs => ?_⟩, hsize⟩
  · rw [← hbefore, ← hkept]
    exact List.take_prefix _ _
  · obtain ⟨hfile, hfilters, hmacros⟩ := hst.sound hs
    refine ⟨hfile, hfilters, fun decl hdecl => ?_⟩
    rw [show Array.size _ = t.macros.size from hsize]
    exact hsound (fun pair hpair => (himported pair hpair).2) hmacros decl hdecl

/-- The macros of a template are added to the table, at most one for each node, under the numbers
that are returned. -/
theorem macrosOf_advances {elsewhere : Elsewhere} {env : Surroundings} (he : elsewhere.Sound)
    (henv : env.Sound) {nodes : List Node} {imported : List (String × Nat)}
    (hnodes : Regular env.registry nodes) (h : macrosOf elsewhere env nodes s = .ok (imported, t)) :
    s.Advances t 0 ∧
      (∀ pair ∈ imported, s.macros.size ≤ pair.2 ∧ pair.2 < t.macros.size) ∧
        imported.length ≤ nodes.length := by
  induction nodes generalizing s imported with
  | nil =>
    obtain ⟨rfl, rfl⟩ := pure_eq_ok.mp h
    exact ⟨.refl s, by simp, Nat.le_refl _⟩
  | cons n rest ih =>
    obtain ⟨hn, hrest⟩ := Node.throughout_cons.mp hnodes
    have hskip : ∀ {s : EmissionState} {imported : List (String × Nat)},
        macrosOf elsewhere env rest s = .ok (imported, t) → s.Advances t 0 ∧
          (∀ pair ∈ imported, s.macros.size ≤ pair.2 ∧ pair.2 < t.macros.size) ∧
            imported.length ≤ (n :: rest).length := fun h => by
      obtain ⟨hadvances, himported, hlength⟩ := ih hrest h
      exact ⟨hadvances, himported, Nat.le_succ_of_le hlength⟩
    cases n with
    | literal text span => exact hskip h
    | output subject filters span => exact hskip h
    | tag name args body branches span =>
      rw [macrosOf] at h
      split at h
      · simp only [bind_eq_ok, setLine_eq_ok] at h
        obtain ⟨_, _, rfl, h⟩ := h
        have hline : s.Advances { s with line := span.start.line } 0 :=
          .of_tables_eq rfl rfl rfl rfl rfl
        cases hsignature : macroSignature? args with
        | some signature =>
          simp only [hsignature, bind_eq_ok, placed_eq_ok, pure_eq_ok] at h
          obtain ⟨id, u, hid, more, v, hmore, rfl, rfl⟩ := h
          obtain ⟨_, hbody, _⟩ := Node.throughout_tag.mp hn
          obtain ⟨hadvances, hfirst, hid⟩ := macroCode_advances hid fun hs => he henv hbody hs
          obtain ⟨hadvances', himported, hlength⟩ := ih hrest hmore
          refine ⟨(hline.trans hadvances).trans hadvances', ?_, Nat.succ_le_succ hlength⟩
          rintro pair (_ | ⟨_, hpair⟩)
          · exact ⟨hfirst, Nat.lt_of_lt_of_le hid hadvances'.macros_le⟩
          · obtain ⟨hlater, hpair⟩ := himported pair hpair
            exact ⟨Nat.le_trans hadvances.macros_le hlater, hpair⟩
        | none =>
          rw [hsignature] at h
          obtain ⟨hadvances, hrest⟩ := hskip h
          exact ⟨hline.trans hadvances, hrest⟩
      · exact hskip h

/-- The code of imported macros leaves a name and a callable for each. -/
theorem macroPairs_emitted {imported : List (String × Nat)}
    (himported : ∀ pair ∈ imported, pair.2 < s.macros.size)
    (h : macroPairs imported s = .ok (code, t)) : Emitted s t code 0 (imported.length * 2) := by
  induction imported generalizing s code with
  | nil =>
    obtain ⟨rfl, rfl⟩ := pure_eq_ok.mp h
    exact .nil s 0
  | cons pair rest ih =>
    simp only [macroPairs, bind_eq_ok, pure_eq_ok] at h
    obtain ⟨key, u, hkey, value, v, hvalue, more, w, hmore, rfl, rfl⟩ := h
    have hkey : Emitted s u key 0 1 := op_emitted hkey rfl rfl trivial
    have hid : pair.2 < u.macros.size :=
      Nat.lt_of_lt_of_le (himported pair List.mem_cons_self) hkey.advances.macros_le
    have hvalue : Emitted u v value 0 1 := op_emitted hvalue rfl rfl hid
    have hmore := (ih (fun pair hpair => Nat.lt_of_lt_of_le
      (himported pair (List.mem_cons_of_mem _ hpair))
      (Nat.le_trans hkey.advances.macros_le hvalue.advances.macros_le)) hmore).above 2
    rw [Nat.zero_add] at hmore
    simpa [Nat.succ_mul] using (hkey.append (hvalue.above 1)).append hmore

/-- The code of the imported macros of a template leaves the map of them. -/
theorem importTemplate_emitted {elsewhere : Elsewhere} {env : Surroundings} (he : elsewhere.Sound)
    (henv : env.Sound) {name : String} (h : importTemplate elsewhere env name s = .ok (code, t)) :
    Emitted s t code 0 1 := by
  cases hget : env.set.get? name with
  | none => simp [importTemplate, hget, fail_eq_ok] at h
  | some template =>
    have hregular := henv.templates template (TemplateSet.mem_of_get? hget).1
    simp only [importTemplate, hget, bind_eq_ok, pure_eq_ok, inFile_eq_ok] at h
    obtain ⟨⟨count, pairs⟩, _,
      ⟨u, ⟨imported, v, himported, _, w, hshare, pairs', x, hpairs, heq, rfl⟩, rfl⟩,
      last, y, hlast, rfl, rfl⟩ := h
    obtain ⟨rfl, rfl⟩ := Prod.mk.inj heq
    obtain ⟨hadvances, hids, hlength⟩ :=
      macrosOf_advances he henv (regular_nodes hregular) himported
    obtain ⟨hadvances, hsize⟩ := shareMacros_advances hadvances hids hshare
    have hpairs := macroPairs_emitted (fun pair hpair => hsize ▸ (hids pair hpair).2) hpairs
    have hinner : Emitted (entered s template.name) x pairs' 0 (imported.length * 2) :=
      hpairs.afterAdvance hadvances
    have hcount : Machine.pairedCount imported.length = imported.length * 2 := by
      rw [Machine.pairedCount, Nat.mod_eq_of_lt]
      exact Nat.lt_of_le_of_lt (Nat.mul_le_mul_right 2 hlength) hregular.size
    exact (inFile_emitted hinner).append (op_emitted hlast hcount rfl trivial)

/-- The code of regular nodes from several templates leaves the stack as it was. -/
theorem nodesOf_emitted {elsewhere : Elsewhere} {env : Surroundings} (he : elsewhere.Sound)
    (henv : env.Sound) {rows : List (String × Node)}
    (hrows : ∀ row ∈ rows, Regular env.registry [row.2])
    (h : nodesOf elsewhere env rows s = .ok (code, t)) : Emitted s t code 0 0 := by
  induction rows generalizing s code with
  | nil =>
    obtain ⟨rfl, rfl⟩ := pure_eq_ok.mp h
    exact .nil s 0
  | cons row rest ih =>
    simp only [nodesOf, bind_eq_ok, pure_eq_ok, inFile_eq_ok] at h
    obtain ⟨first, _, ⟨u, hfirst, rfl⟩, second, v, hsecond, rfl, rfl⟩ := h
    have hfirst : Emitted (entered s row.1) u first 0 0 :=
      he henv (hrows row List.mem_cons_self) hfirst
    exact (inFile_emitted hfirst).append
      (ih (fun row hrow => hrows row (List.mem_cons_of_mem _ hrow)) hsecond)

/-- The code of a definition of a block leaves the stack as it was. -/
theorem blockLayer_emitted {elsewhere : Elsewhere} {env : Surroundings} (he : elsewhere.Sound)
    (henv : env.Sound) {name : String} {index : Nat}
    (h : blockLayer elsewhere env name index s = .ok (code, t)) : Emitted s t code 0 0 := by
  cases hlayer : (env.resolved.layers name)[index]? with
  | none =>
    simp only [blockLayer, hlayer, pure_eq_ok] at h
    obtain ⟨rfl, rfl⟩ := h
    exact .nil s 0
  | some layer =>
    simp only [blockLayer, hlayer, inFile_eq_ok] at h
    obtain ⟨u, hbody, rfl⟩ := h
    have hinner : Surroundings.Sound { env with blocks := (name, index) :: env.blocks } :=
      ⟨henv.templates, henv.layers⟩
    have hbody : Emitted (entered s layer.template) u code 0 0 :=
      he hinner (henv.layers name layer (List.mem_of_getElem? hlayer)) hbody
    exact inFile_emitted hbody

/-- The code of the next less derived definition leaves the stack as it was. -/
theorem parentLayer_emitted {elsewhere : Elsewhere} {env : Surroundings} (he : elsewhere.Sound)
    (henv : env.Sound) (h : parentLayer elsewhere env s = .ok (code, t)) :
    Emitted s t code 0 0 := by
  cases hblocks : env.blocks with
  | nil => simp [parentLayer, hblocks, bind_eq_ok, fail_eq_ok] at h
  | cons block rest =>
    rw [parentLayer, hblocks] at h
    exact blockLayer_emitted he henv h

/-- What inheritance makes of a regular set is regular. -/
theorem Surroundings.Sound.resolved {env : Surroundings} (henv : env.Sound) {template : Template}
    {resolved : Resolved} (hresolve : env.set.resolve template = .ok resolved)
    (htemplate : template ∈ env.set.templates) (blocks : List (String × Nat))
    (including : List String) :
    Surroundings.Sound { env with resolved, blocks, including } ∧
      ∀ row ∈ resolved.body, Regular env.registry [row.2] := by
  have hall : ∀ u ∈ env.set.templates, Regular env.registry u.nodes := fun u hu =>
    regular_nodes (henv.templates u hu)
  exact ⟨⟨henv.templates, fun block => TemplateSet.throughout_layers hall hresolve htemplate block⟩,
    TemplateSet.throughout_body hall hresolve htemplate⟩

/-- The code of an included template leaves the stack as it was. -/
theorem insertTemplate_emitted {elsewhere : Elsewhere} {env : Surroundings} (he : elsewhere.Sound)
    (henv : env.Sound) {name : String} {value? : Option Expr} {isolated isOptional : Bool}
    (hvalue : ∀ e, value? = some e → e.Fits)
    (h : insertTemplate elsewhere env name value? isolated isOptional s = .ok (code, t)) :
    Emitted s t code 0 0 := by
  cases insertedCode_of_eq_ok h with
  | missing => exact .nil s 0
  | @inserted _ _ _ _ _ _ template _ hget _ hresolved hframe hbody hpop =>
    obtain ⟨hinner, hrows⟩ := henv.resolved hresolved (TemplateSet.mem_of_get? hget).1 []
      (template.name :: env.including)
    have hbody := nodesOf_emitted he hinner hrows hbody
    cases value? with
    | some e =>
      simp only [includeFrame, bind_eq_ok, pure_eq_ok] at hframe
      obtain ⟨value, y, hvalueCode, push, z, hpush, rfl, rfl⟩ := hframe
      have hvalueCode := expr_emitted (hvalue e rfl) hvalueCode
      have hwhole := enclosed_emitted .contextScope trivial trivial hpush hbody hpop
      simpa [List.append_assoc] using hvalueCode.append hwhole
    | none =>
      cases isolated with
      | true =>
        simp only [includeFrame, if_true, bind_eq_ok, pure_eq_ok] at hframe
        obtain ⟨value, y, hvalueCode, push, z, hpush, rfl, rfl⟩ := hframe
        have hvalueCode : Emitted s y value 0 1 := op_emitted hvalueCode rfl rfl trivial
        have hwhole := enclosed_emitted .contextScope trivial trivial hpush hbody hpop
        simpa [List.append_assoc] using hvalueCode.append hwhole
      | false => exact enclosed_emitted .scope trivial trivial hframe hbody hpop

mutual

/-- The code of a regular node leaves the stack as it was. -/
theorem node_emitted {elsewhere : Elsewhere} {env : Surroundings} (he : elsewhere.Sound)
    (henv : env.Sound) : ∀ {n : Node} {s t : EmissionState} {code : Fragment},
    Regular env.registry [n] → node elsewhere env n s = .ok (code, t) → Emitted s t code 0 0
  | .literal text span, s, t, code, _, h => by
    simp only [node, bind_eq_ok, setLine_eq_ok] at h
    obtain ⟨_, _, rfl, h⟩ := h
    split at h
    · obtain ⟨rfl, rfl⟩ := pure_eq_ok.mp h
      exact (Emitted.nil _ 0).afterLine
    · exact (op_emitted h rfl rfl trivial).afterLine
  | .output subject filters span, s, t, code, hn, h => by
    simp only [node, bind_eq_ok, setLine_eq_ok, placed_eq_ok] at h
    obtain ⟨_, _, rfl, h⟩ := h
    obtain ⟨hsubject, hfilters⟩ := (hn (.output subject filters span) (by simp [Node.everywhere])).2
    exact (output_emitted hsubject hfilters h).afterLine
  | .tag name args body branches span, s, t, code, hn, h => by
    obtain ⟨⟨hbuiltin, hargs, hlabels⟩, hbody, hbranches⟩ := Node.throughout_tag.mp hn
    have hnodes : ∀ {s t : EmissionState} {code : Fragment},
        nodes elsewhere env body s = .ok (code, t) → Emitted s t code 0 0 := fun h =>
      nodes_emitted he henv hbody h
    have hbranch : ∀ {index : Nat} {s t : EmissionState} {code : Fragment},
        branchAt elsewhere env branches index s = .ok (code, t) → Emitted s t code 0 0 := fun h =>
      branchAt_emitted he henv hbranches h
    obtain ⟨tag, tags, -, hcode⟩ := exists_tagCode h hbuiltin
    refine Emitted.afterAdvance ?_ (t := { s with line := span.start.line, tags })
      (.of_tables_eq rfl rfl rfl rfl rfl)
    cases hcode with
    | inherit => exact .nil _ 0
    | block _ hcode => exact blockLayer_emitted he henv hcode
    | parent hcode => exact parentLayer_emitted he henv hcode
    | cond _ hcondition htest hyes hrest =>
      have htest := expr_emitted (hargs.head hcondition) htest
      have hrest := alternatives_emitted he henv hlabels hbranches hrest
      simpa [List.append_assoc] using htest.append (choice_emitted _ (hnodes hyes) hrest)
    | loop _ hcode => exact loop_emitted hargs hnodes (fun hother => by simp at hother) hcode
    | loopOrElse _ hcode =>
      refine loop_emitted hargs hnodes (fun hother => ?_) hcode
      obtain rfl := Option.some.inj hother
      exact hbranch
    | assign hcode => exact assignment_emitted hargs hcode
    | insert _ hcode =>
      refine insertTemplate_emitted he henv (fun e hvalue => ?_) hcode
      obtain ⟨arg, harg, hvalue⟩ := List.exists_of_findSome?_eq_some hvalue
      cases arg with
      | expr e' =>
        obtain rfl := Option.some.inj hvalue
        exact hargs e' harg
      | _ => simp [TagArg.asExpr?] at hvalue
    | importMacros _ hmacros hstore =>
      exact (importTemplate_emitted he henv hmacros).append (op_emitted hstore rfl rfl trivial)
    | defineMacro _ hid hbuild hstore =>
      obtain ⟨hadvances, -, hid⟩ := macroCode_advances hid hnodes
      have hbuild : Emitted _ _ _ 0 1 := op_emitted hbuild rfl rfl hid
      exact (hbuild.append (op_emitted hstore rfl rfl trivial)).afterAdvance hadvances
    | filter hcode => exact filtered_emitted hargs hnodes hcode
    | escaping hcode => exact escaping_emitted hnodes hcode

/-- The code of regular nodes one after the other leaves the stack as it was. -/
theorem nodes_emitted {elsewhere : Elsewhere} {env : Surroundings} (he : elsewhere.Sound)
    (henv : env.Sound) : ∀ {ns : List Node} {s t : EmissionState} {code : Fragment},
    Regular env.registry ns → nodes elsewhere env ns s = .ok (code, t) → Emitted s t code 0 0
  | [], s, t, code, _, h => by
    simp only [nodes, pure_eq_ok] at h
    obtain ⟨rfl, rfl⟩ := h
    exact .nil s 0
  | n :: rest, s, t, code, hns, h => by
    obtain ⟨hn, hrest⟩ := Node.throughout_cons.mp hns
    simp only [nodes, bind_eq_ok, pure_eq_ok] at h
    obtain ⟨first, u, hfirst, second, v, hsecond, rfl, rfl⟩ := h
    exact (node_emitted he henv hn hfirst).append (nodes_emitted he henv hrest hsecond)

/-- The code of the branches of a condition follows what comes before it. -/
theorem alternatives_emitted {elsewhere : Elsewhere} {env : Surroundings} (he : elsewhere.Sound)
    (henv : env.Sound) : ∀ {branches : List Branch} {s t : EmissionState} {code : Fragment}
    {onFalse : Nat}, (∀ b ∈ branches, ArgsFit b.args) →
    Node.ThroughoutBranches (fun n => n.IsBuiltin env.registry ∧ n.Fits) branches →
    alternatives elsewhere env branches s = .ok ((code, onFalse), t) →
      Alternative s t code onFalse
  | [], s, t, code, onFalse, _, _, h => by
    simp only [alternatives, bind_eq_ok, here_eq_ok, pure_eq_ok] at h
    obtain ⟨_, _, ⟨rfl, rfl⟩, heq, rfl⟩ := h
    obtain ⟨rfl, rfl⟩ := Prod.mk.inj heq
    exact .none rfl
  | .mk label args body span :: rest, s, t, code, onFalse, hlabels, hbranches, h => by
    obtain ⟨hbody, hrest⟩ := Node.throughoutBranches_cons.mp hbranches
    have hargs : ArgsFit args := hlabels _ List.mem_cons_self
    have hlabels := fun b hb => hlabels b (List.mem_cons_of_mem _ hb)
    simp only [alternatives, bind_eq_ok, setLine_eq_ok, reserve_eq_ok, here_eq_ok] at h
    obtain ⟨_, _, rfl, _, _, ⟨rfl, rfl⟩, _, _, ⟨rfl, rfl⟩, h⟩ := h
    cases hcondition : args.head?.bind TagArg.asExpr? with
    | some condition =>
      simp only [hcondition, bind_eq_ok, reserve_eq_ok, here_eq_ok, pure_eq_ok] at h
      obtain ⟨test, u, htest, _, _, ⟨rfl, rfl⟩, yes, v, hyes, ⟨more, onFalse'⟩, w, hmore, _, _,
        ⟨rfl, rfl⟩, heq, rfl⟩ := h
      obtain ⟨rfl, rfl⟩ := Prod.mk.inj heq
      have htest := expr_emitted (hargs.head hcondition) htest
      have hmore := alternatives_emitted he henv hlabels hrest hmore
      have hyes := nodes_emitted he henv hbody hyes
      have hwhole := htest.append (choice_emitted u.line hyes hmore)
      simpa [List.append_assoc] using Alternative.some (s := s) hwhole.afterLine
    | none =>
      simp only [hcondition, bind_eq_ok, here_eq_ok, pure_eq_ok] at h
      obtain ⟨yes, u, hyes, ⟨more, onFalse'⟩, v, hmore, _, _, ⟨rfl, rfl⟩, heq, rfl⟩ := h
      obtain ⟨rfl, rfl⟩ := Prod.mk.inj heq
      have hyes := nodes_emitted he henv hbody hyes
      have hmore := alternatives_emitted he henv hlabels hrest hmore
      exact Alternative.some (s := s) (hyes.append hmore.skipped).afterLine

/-- The code of one branch leaves the stack as it was. -/
theorem branchAt_emitted {elsewhere : Elsewhere} {env : Surroundings} (he : elsewhere.Sound)
    (henv : env.Sound) : ∀ {branches : List Branch} {index : Nat} {s t : EmissionState}
    {code : Fragment},
    Node.ThroughoutBranches (fun n => n.IsBuiltin env.registry ∧ n.Fits) branches →
    branchAt elsewhere env branches index s = .ok (code, t) → Emitted s t code 0 0
  | [], index, s, t, code, _, h => by
    simp only [branchAt, pure_eq_ok] at h
    obtain ⟨rfl, rfl⟩ := h
    exact .nil s 0
  | .mk label args body span :: rest, 0, s, t, code, hbranches, h => by
    rw [branchAt] at h
    exact nodes_emitted he henv (Node.throughoutBranches_cons.mp hbranches).1 h
  | .mk label args body span :: rest, index + 1, s, t, code, hbranches, h => by
    rw [branchAt] at h
    exact branchAt_emitted he henv (Node.throughoutBranches_cons.mp hbranches).2 h

end

/-- The code of regular nodes leaves the stack as it was, however deep references nest. -/
theorem atDepth_sound (depth : Nat) : (atDepth depth).Sound := by
  induction depth with
  | zero =>
    intro env nodes s t code _ _ h
    simp [atDepth, fail_eq_ok] at h
  | succ depth ih =>
    intro env nodes s t code henv hnodes h
    exact nodes_emitted ih henv hnodes h

end Emission

/-- The templates of the set use built-in tags only, and what is counted in them fits into a machine
word. -/
def TemplateSet.Regular (s : TemplateSet) (registry : Registry) : Prop :=
  ∀ t ∈ s.templates, t.Regular registry

/-- The code of a compiled program was emitted from the first position on, into sound tables. -/
theorem TemplateSet.compileAt_eq_ok {s : TemplateSet} {registry : Registry} {autoescape : Bool}
    {name : String} {depth : Nat} {p : Program} (hregular : s.Regular registry)
    (h : s.compileAt registry autoescape name depth = .ok p) :
    ∃ (main : Fragment) (t : EmissionState), p.main = Code.ofFragment main ∧
      p.files = t.files ∧ p.filters = t.filters ∧ p.macros = t.macros ∧ t.Sound ∧
      main.Within t.filters.size t.macros.size t.files.size ∧
      Structured 0 main.instructions 0 0 := by
  obtain ⟨⟨main, t⟩, hemit, h⟩ := Result.bind_eq_ok.mp h
  obtain rfl := Except.ok.inj h
  simp only [emitRoot, Emission.inFile_eq_ok, Emission.bind_eq_ok] at hemit
  obtain ⟨u, ⟨resolved, v, hresolve, hmain⟩, rfl⟩ := hemit
  obtain ⟨hresolved, rfl⟩ := Emission.lift_eq_ok.mp hresolve
  have hroot : s.root ∈ s.templates := List.mem_cons_self
  have hall : ∀ t ∈ s.templates, Emission.Regular registry t.nodes := fun t ht =>
    Emission.regular_nodes (hregular t ht)
  have henv : Emission.Surroundings.Sound
      { registry, set := s, resolved, including := [s.root.name] } :=
    ⟨hregular, fun block => throughout_layers hall hresolved hroot block⟩
  have hmain := Emission.nodesOf_emitted (Emission.atDepth_sound depth) henv
    (throughout_body hall hresolved hroot) hmain
  have hstart : EmissionState.Sound (Emission.entered {} s.root.name) := by
    constructor <;> simp [Emission.entered, Emission.intern]
  exact ⟨main, u, rfl, rfl, rfl, rfl, hmain.advances.sound hstart, hmain.within hstart,
    hmain.structured⟩

end Templating
