import Templating.Proofs.Emission.SourceMap

/-!
# The places of the code of templates

Nodes set the line to their own before anything is emitted for them, so emission can begin on any
line of the right file; where it ends is read off the last node. The induction follows the nodes,
and an induction on the depth of references goes around it.
-/

namespace Templating

namespace Emission

open Node (Throughout ThroughoutBranches)

variable {s : TemplateSet} {away : Instruction → Prop} {file : String}
  {st t u v : EmissionState} {code : Fragment}

/-- There are built-in tags only, under their names, and the blocks that emission may be led to are
defined by templates of the set. -/
structure Surroundings.Charted (s : TemplateSet) (away : Instruction → Prop) (env : Surroundings) :
    Prop where
  set : env.set = s
  builtin : env.registry.OnlyBuiltinTags
  layers : ∀ block, ∀ layer ∈ env.resolved.layers block, layer ∈ s.definitionsOf block ∧
    Throughout (Node.Belongs s away layer.template) layer.body

/-- Code of nodes was emitted that begins on any line: if there are no nodes the line stays, and
otherwise emission ends at home unless the last node is one that goes abroad. -/
def Ends (s : TemplateSet) (file : String) (ns : List Node) (st t : EmissionState) : Prop :=
  ns = [] ∧ t.line = st.line ∨ t.Stands s file (Node.endAbroad s.isShared ns = false)

/-- Nodes at other places are emitted with places of their own. -/
def Elsewhere.Locates (E : Elsewhere) (s : TemplateSet) (away : Instruction → Prop) : Prop :=
  ∀ ⦃env : Surroundings⦄ ⦃ns : List Node⦄ ⦃file : String⦄ ⦃st t : EmissionState⦄
    ⦃code : Fragment⦄, env.Charted s away → Throughout (Node.Belongs s away file) ns →
      st.In s file → E env ns st = .ok (code, t) → Maps s away st t code ∧ Ends s file ns st t

/-- Nodes that begin on any line locate code. -/
theorem locates_of_ends {x : Emission Fragment} {ns : List Node}
    (hx : ∀ {st t : EmissionState} {code : Fragment}, st.In s file → x st = .ok (code, t) →
      Maps s away st t code ∧ Ends s file ns st t) :
    Locates s away file (Node.endAbroad s.isShared ns = false) x := by
  intro home st t code hst h
  obtain ⟨hmaps, hends⟩ := hx hst.isIn h
  refine ⟨hmaps, ?_⟩
  rcases hends with ⟨-, hline⟩ | hstands
  · exact ⟨hmaps.isIn hst.isIn, hline ▸ hst.known, fun h => hline ▸ hst.home h.1⟩
  · exact hstands.imp And.right

/-- Emitting with another current file begins on the current line of it, and comes back with the
line it ends on. -/
theorem inFile_maps {α : Type} {name : String} {x : Emission α} {a : α}
    (hname : ∃ t ∈ s.templates, t.name = name) (h : inFile name x st = .ok (a, t)) :
    ∃ u v, u.In s name ∧ u.line = st.line ∧ x u = .ok (a, v) ∧ t.line = v.line ∧
      ∀ code, Maps s away u v code → Maps s away st t code := by
  obtain ⟨v, hx, rfl⟩ := inFile_eq_ok.mp h
  have hfiles := prefix_intern st.files name
  refine ⟨{ st with file := (intern st.files name).1, files := (intern st.files name).2 }, v,
    ⟨getElem?_intern st.files name, hname⟩, rfl, hx, rfl, fun code hmaps => ?_⟩
  have hgrows : st.GrowsTo { st with
      file := (intern st.files name).1, files := (intern st.files name).2 } :=
    ⟨hfiles, Nat.le_refl _, Nat.le_refl _⟩
  exact ⟨rfl, hgrows.trans ⟨hmaps.grows.files, hmaps.grows.filters, hmaps.grows.macros⟩,
    fun hst decl hdecl => (hmaps.macros (fun d hd => (hst d hd).mono hgrows) decl hdecl).mono
      ⟨List.prefix_rfl, Nat.le_refl _, Nat.le_refl _⟩,
    fun p hp => (hmaps.code p hp).mono ⟨List.prefix_rfl, Nat.le_refl _, Nat.le_refl _⟩⟩

section

variable {E : Elsewhere} {env : Surroundings} (hs : s.Confines away) (hE : E.Locates s away)
  (henv : env.Charted s away)

include hE henv

/-- The code of nodes from several templates. -/
theorem nodesOf_maps {rows : List (String × Node)}
    (hrows : ∀ row ∈ rows, (∃ t ∈ s.templates, t.name = row.1) ∧
      Throughout (Node.Belongs s away row.1) [row.2])
    (h : nodesOf E env rows st = .ok (code, t)) :
    Maps s away st t code ∧
      (rows = [] ∧ t.line = st.line ∨ ∃ other, s.StartsOn other t.line) := by
  induction rows generalizing st code with
  | nil =>
    obtain ⟨rfl, rfl⟩ := pure_eq_ok.mp h
    exact ⟨.nil st, .inl ⟨rfl, rfl⟩⟩
  | cons row rest ih =>
    obtain ⟨hrow, hrest⟩ := List.forall_mem_cons.mp hrows
    simp only [nodesOf, bind_eq_ok, pure_eq_ok] at h
    obtain ⟨first, u, hfirst, second, v, hsecond, rfl, rfl⟩ := h
    obtain ⟨u', v', hin, -, hfirst, hline, hmaps⟩ := inFile_maps hrow.1 hfirst
    obtain ⟨hmaps', hends⟩ := hE henv hrow.2 hin hfirst
    have hknown : ∃ other, s.StartsOn other u.line := by
      rcases hends with ⟨hnil, -⟩ | hstands
      · cases hnil
      · exact hline ▸ hstands.known
    obtain ⟨hmaps'', hafter⟩ := ih hrest hsecond
    refine ⟨(hmaps _ hmaps').append hmaps'', .inr ?_⟩
    rcases hafter with ⟨-, hline⟩ | hafter
    · exact hline ▸ hknown
    · exact hafter

/-- The code of one definition of a block, which ends at home if the definition is one of the
current template and stays there. -/
theorem blockLayer_mapped {name : String} {index : Nat} (hst : st.Stands s file True)
    (h : blockLayer E env name index st = .ok (code, t)) :
    Mapped s away file (∀ layer ∈ env.resolved.layers name,
      layer.template = file ∧ Node.endAbroad s.isShared layer.body = false) st code t := by
  cases hlayer : (env.resolved.layers name)[index]? with
  | none =>
    simp only [blockLayer, hlayer, pure_eq_ok] at h
    obtain ⟨rfl, rfl⟩ := h
    exact (Mapped.nil hst).imp fun _ => trivial
  | some layer =>
    simp only [blockLayer, hlayer] at h
    have hmem := List.mem_of_getElem? hlayer
    have hinner : Surroundings.Charted s away { env with blocks := (name, index) :: env.blocks } :=
      ⟨henv.set, henv.builtin, henv.layers⟩
    obtain ⟨hdefined, hlayer⟩ := henv.layers name layer hmem
    obtain ⟨u, v, hin, hbefore, hbody, hafter, hmaps⟩ :=
      inFile_maps (TemplateSet.exists_of_mem_definitionsOf hdefined) h
    obtain ⟨hmaps', hends⟩ := hE hinner hlayer hin hbody
    have hmaps := hmaps _ hmaps'
    refine ⟨hmaps, hmaps.isIn hst.isIn, ?_, fun hlayers => ?_⟩
    · rcases hends with ⟨-, hline⟩ | hstands
      · exact hafter ▸ hline ▸ hbefore ▸ hst.known
      · exact hafter ▸ hstands.known
    · obtain ⟨rfl, hstays⟩ := hlayers layer hmem
      rcases hends with ⟨-, hline⟩ | hstands
      · exact hafter ▸ hline ▸ hbefore ▸ hst.home trivial
      · exact hafter ▸ hstands.home hstays

/-- The code of the next less derived definition. -/
theorem parentLayer_mapped (hst : st.Stands s file True)
    (h : parentLayer E env st = .ok (code, t)) : Mapped s away file False st code t := by
  cases hblocks : env.blocks with
  | nil => simp [parentLayer, hblocks, bind_eq_ok, fail_eq_ok] at h
  | cons block rest =>
    rw [parentLayer, hblocks] at h
    exact (blockLayer_mapped hE henv hst h).imp False.elim

omit hE henv in
/-- The code of the frame of an included template. -/
theorem includeFrame_mapped {value? : Option Expr} {isolated : Bool}
    (hvalue : ∀ e ∈ value?, ∀ line ∈ e.lines, s.StartsOn file line) (hst : st.Stands s file True)
    (h : includeFrame env value? isolated st = .ok (code, t)) :
    Mapped s away file True st code t := by
  cases value? with
  | some e =>
    simp only [includeFrame, bind_eq_ok, pure_eq_ok] at h
    obtain ⟨first, u, hfirst, last, v, hlast, rfl, rfl⟩ := h
    have hfirst : Mapped s away file True _ _ _ := expr_mapped (hvalue e rfl) hst.isIn hfirst
    exact hfirst.append (op_mapped hfirst.stands (.inl trivial) hlast)
  | none =>
    cases isolated with
    | true =>
      simp only [includeFrame, if_true, bind_eq_ok, pure_eq_ok] at h
      obtain ⟨first, u, hfirst, last, v, hlast, rfl, rfl⟩ := h
      have hfirst : Mapped s away file True _ _ _ := op_mapped hst (.inl trivial) hfirst
      exact hfirst.append (op_mapped hfirst.stands (.inl trivial) hlast)
    | false => exact op_mapped hst (.inl trivial) h

include hs in
/-- The code of an included template, and what closes its frame. -/
theorem insertTemplate_mapped {name : String} {value? : Option Expr} {isolated isOptional : Bool}
    (hvalue : ∀ e ∈ value?, ∀ line ∈ e.lines, s.StartsOn file line) (haway : away .popFrame)
    (hst : st.Stands s file True)
    (h : insertTemplate E env name value? isolated isOptional st = .ok (code, t)) :
    Mapped s away file False st code t := by
  cases insertedCode_of_eq_ok h with
  | missing => exact (Mapped.nil hst).imp False.elim
  | @inserted _ u v frame body pop template resolved hget _ hresolve hframe hbody hpop =>
    rw [henv.set] at hget hresolve
    have htemplate := (TemplateSet.mem_of_get? hget).1
    have hinner : Surroundings.Charted s away { env with
        resolved, blocks := [], including := template.name :: env.including } :=
      ⟨henv.set, henv.builtin, hs.belongs_layers htemplate hresolve⟩
    have hframe : Mapped s away file True _ _ _ := includeFrame_mapped hvalue hst hframe
    obtain ⟨hmaps, hafter⟩ :=
      nodesOf_maps hE hinner (hs.belongs_body htemplate hresolve) hbody
    have hstands : v.Stands s file False := by
      refine ⟨hmaps.isIn hframe.stands.isIn, ?_, False.elim⟩
      rcases hafter with ⟨-, hline⟩ | hknown
      · exact hline ▸ hframe.stands.known
      · exact hknown
    have hpop := op_mapped hstands (.inr haway) hpop
    exact ⟨(hframe.toMaps.append hmaps).append hpop.toMaps, hpop.stands⟩

/-- The macros among the nodes are entered into the table, under the numbers that are returned. If
there are any, emission ends at home unless one of them does not stay there. -/
theorem macrosOf_maps {ns : List Node} {imported : List (String × Nat)} {stays : Prop}
    (hns : Throughout (Node.Belongs s away file) ns)
    (hstays : stays → ∀ n ∈ ns, ∀ args body branches span,
      n = .tag "macro" args body branches span → Node.endAbroad s.isShared body = false)
    (hst : st.In s file) (h : macrosOf E env ns st = .ok (imported, t)) :
    Maps s away st t [] ∧ (∀ pair ∈ imported, pair.2 < t.macros.size) ∧
      (imported = [] ∧ t.line = st.line ∨ t.Stands s file stays) := by
  induction ns generalizing st imported with
  | nil =>
    obtain ⟨rfl, rfl⟩ := pure_eq_ok.mp h
    exact ⟨.nil st, by simp, .inl ⟨rfl, rfl⟩⟩
  | cons n rest ih =>
    obtain ⟨hn, hrest⟩ := Node.throughout_cons.mp hns
    have hstays' (h : stays) (n : Node) (hn : n ∈ rest) := hstays h n (List.mem_cons_of_mem _ hn)
    cases n with
    | literal text span => exact ih hrest hstays' hst h
    | output subject filters span => exact ih hrest hstays' hst h
    | tag name args body branches span =>
      rw [macrosOf] at h
      split at h
      · next hname =>
        obtain rfl := hname
        obtain ⟨htag, hbody, -⟩ := Node.throughout_tag.mp hn
        have hline : EmissionState.Stands s file True { st with line := span.start.line } :=
          stands_line hst (htag.lines _ (by simp [Node.lines]))
        simp only [bind_eq_ok, setLine_eq_ok] at h
        obtain ⟨_, _, rfl, h⟩ := h
        -- behind a macro emission stands somewhere, and the macros behind it change that at most
        have hlater {u : EmissionState} {imported : List (String × Nat)}
            (hstands : u.Stands s file stays) (hmaps : Maps s away st u [])
            (h : macrosOf E env rest u = .ok (imported, t)) :
            Maps s away st t [] ∧ u.macros.size ≤ t.macros.size ∧
              (∀ pair ∈ imported, pair.2 < t.macros.size) ∧ t.Stands s file stays := by
          obtain ⟨hmaps', hids, hafter⟩ := ih hrest hstays' hstands.isIn h
          refine ⟨hmaps.append hmaps', hmaps'.grows.macros, hids, ?_⟩
          rcases hafter with ⟨-, hsame⟩ | hafter
          · exact ⟨hmaps'.isIn hstands.isIn, hsame ▸ hstands.known, fun h => hsame ▸ hstands.home h⟩
          · exact hafter
        cases hsignature : macroSignature? args with
        | some signature =>
          simp only [hsignature, bind_eq_ok, placed_eq_ok, pure_eq_ok] at h
          obtain ⟨id, u, hid, more, v, hmore, rfl, rfl⟩ := h
          obtain ⟨hcoded, hentered⟩ := macroCode_mapped
            (locates_of_ends fun hst h => hE henv hbody hst h) hline hid
          have hstands : u.Stands s file stays := hcoded.stands.imp fun h =>
            hstays h _ List.mem_cons_self _ _ _ _ rfl
          obtain ⟨hmaps, hgrows, hids, hafter⟩ := hlater hstands hcoded.afterLine.toMaps hmore
          exact ⟨hmaps, List.forall_mem_cons.mpr ⟨Nat.lt_of_lt_of_le hentered hgrows, hids⟩,
            .inr hafter⟩
        | none =>
          rw [hsignature] at h
          obtain ⟨hmaps, -, hids, hafter⟩ := hlater (hline.imp fun _ => trivial)
            ((Maps.nil _).behind rfl rfl (Nat.le_refl _) rfl) h
          exact ⟨hmaps, hids, .inr hafter⟩
      · exact ih hrest hstays' hst h

omit hE henv in
/-- Letting macros see each other leaves their code and the line as they are. -/
theorem shareMacros_maps {imported : List (String × Nat)} {a : Unit}
    (h : shareMacros imported st = .ok (a, t)) : Maps s away st t [] ∧ t.line = st.line := by
  have hsize := (foldl_modify_siblings imported imported st.macros).1
  have hgrows : st.GrowsTo t := by
    obtain rfl : _ = t := (Prod.mk.inj (Except.ok.inj h)).2
    exact ⟨List.prefix_rfl, Nat.le_refl _, Nat.le_of_eq hsize.symm⟩
  obtain rfl : _ = t := (Prod.mk.inj (Except.ok.inj h)).2
  refine ⟨⟨rfl, hgrows, fun hst decl hdecl => ?_, by simp⟩, rfl⟩
  obtain ⟨decl', hdecl', hcode⟩ := mem_foldl_modify hdecl
  exact hcode ▸ (hst decl' hdecl').mono hgrows

omit hE henv in
/-- The code of imported macros. -/
theorem macroPairs_mapped {imported : List (String × Nat)} {stays : Prop}
    (hids : ∀ pair ∈ imported, pair.2 < st.macros.size) (hresumes : Resumes away stays "macro" [])
    (hst : st.Stands s file stays) (h : macroPairs imported st = .ok (code, t)) :
    Mapped s away file stays st code t := by
  induction imported generalizing st code with
  | nil =>
    obtain ⟨rfl, rfl⟩ := pure_eq_ok.mp h
    exact .nil hst
  | cons pair rest ih =>
    simp only [macroPairs, bind_eq_ok, pure_eq_ok] at h
    obtain ⟨key, u, hkey, value, v, hvalue, more, w, hmore, rfl, rfl⟩ := h
    obtain ⟨hid, hids⟩ := List.forall_mem_cons.mp hids
    have hkey := op_mapped hst (hresumes.closing rfl) hkey
    have hvalue := op_mapped hkey.stands (hresumes.closing rfl) hvalue
      (Nat.lt_of_lt_of_le hid hkey.grows.macros)
    have hgrows := Nat.le_trans hkey.grows.macros hvalue.grows.macros
    exact (hkey.append hvalue).append
      (ih (fun pair hpair => Nat.lt_of_lt_of_le (hids pair hpair) hgrows) hvalue.stands hmore)

include hs in
/-- The code of the imported macros of a template. -/
theorem importTemplate_mapped {name : String} (haway : ∀ count, away (.buildMap count))
    (hst : st.Stands s file True) (h : importTemplate E env name st = .ok (code, t)) :
    Mapped s away file False st code t := by
  cases hget : env.set.get? name with
  | none => simp [importTemplate, hget, fail_eq_ok] at h
  | some template =>
    simp only [importTemplate, hget, bind_eq_ok, pure_eq_ok] at h
    obtain ⟨⟨count, pairs⟩, u, hfile, last, v, hlast, rfl, rfl⟩ := h
    rw [henv.set] at hget
    have htemplate := (TemplateSet.mem_of_get? hget).1
    have hnodes := hs.belongs htemplate
    let stays : Prop := ∀ n ∈ template.nodes, ∀ args body branches span,
      n = .tag "macro" args body branches span → Node.endAbroad s.isShared body = false
    -- a macro that does not stay at home lets these instructions be away
    have hresumes : Resumes away stays "macro" [] := by
      by_cases hstays : stays
      · exact .inl hstays
      · simp only [stays, not_forall, Bool.not_eq_false] at hstays
        obtain ⟨n, hn, args, body, branches, span, rfl, hgone⟩ := hstays
        refine .inr fun i hi => (hnodes.apply hn).closes (by simp [Node.resumes, hgone]) i ?_
        cases i <;> simp_all [Node.closesWith, Instruction.closes]
    obtain ⟨u', v', hin, hbefore, hinner, hafter, hmaps⟩ :=
      inFile_maps ⟨template, htemplate, rfl⟩ hfile
    simp only [bind_eq_ok, pure_eq_ok] at hinner
    obtain ⟨imported, w, himported, ⟨⟩, x, hshare, pairs', y, hpairs, heq, rfl⟩ := hinner
    obtain ⟨rfl, rfl⟩ := Prod.mk.inj heq
    obtain ⟨hmacros, hids, hends⟩ := macrosOf_maps hE henv hnodes (id : stays → stays) hin himported
    obtain ⟨hshared, hsame⟩ : Maps s away _ _ [] ∧ _ := shareMacros_maps hshare
    have hwhole : Maps s away u' y pairs' ∧ ∃ other, s.StartsOn other y.line := by
      rcases hends with ⟨rfl, hline⟩ | hstands
      · obtain ⟨rfl, rfl⟩ := pure_eq_ok.mp hpairs
        refine ⟨(hmacros.append hshared).append (.nil _), ?_⟩
        exact hsame ▸ hline ▸ hbefore ▸ hst.known
      · have hpairs : Mapped s away template.name stays _ _ _ := macroPairs_mapped
          (fun pair hpair => Nat.lt_of_lt_of_le (hids pair hpair) hshared.grows.macros) hresumes
          ⟨hshared.isIn hstands.isIn, hsame ▸ hstands.known, fun h => hsame ▸ hstands.home h⟩ hpairs
        exact ⟨(hmacros.append hshared).append hpairs.toMaps, hpairs.stands.known⟩
    have hmaps := hmaps _ hwhole.1
    have hlast : Mapped s away file False _ _ _ := op_mapped
      ⟨hmaps.isIn hst.isIn, hafter ▸ hwhole.2, False.elim⟩ (.inr (haway _)) hlast
    exact ⟨hmaps.append hlast.toMaps, hlast.stands⟩

end

/-- The code of nodes ends where that of the last node does. -/
theorem endAbroad_cons (shared : String → Bool) (n : Node) {rest : List Node} (hrest : rest ≠ []) :
    Node.endAbroad shared (n :: rest) = Node.endAbroad shared rest := by
  have hempty : rest.isEmpty = false := by simpa using hrest
  cases n <;> simp [Node.endAbroad, hempty]

/-- The lines of a branch are among those of the branches. -/
theorem startsOn_of_branches {label : String} {args : List TagArg} {body : List Node} {span : Span}
    {rest : List Branch}
    (h : ∀ line ∈ (Branch.mk label args body span :: rest).flatMap Branch.lines,
      s.StartsOn file line) :
    s.StartsOn file span.start.line ∧
      (∀ line ∈ args.flatMap TagArg.lines, s.StartsOn file line) ∧
      ∀ line ∈ rest.flatMap Branch.lines, s.StartsOn file line := by
  simp only [List.flatMap_cons, Branch.lines, List.forall_mem_append, List.forall_mem_cons] at h
  exact ⟨h.1.1, h.1.2, h.2⟩

mutual

/-- The code of a node. -/
theorem node_mapped {E : Elsewhere} {env : Surroundings} (hs : s.Confines away)
    (hE : E.Locates s away) (henv : env.Charted s away) :
    ∀ {n : Node} {file : String} {st t : EmissionState} {code : Fragment},
      Throughout (Node.Belongs s away file) [n] → st.In s file → node E env n st = .ok (code, t) →
        Mapped s away file (Node.endAbroad s.isShared [n] = false) st code t
  | .literal text span, file, st, t, code, hn, hst, h => by
    have hline := (hn.apply List.mem_cons_self).lines span.start.line (by simp [Node.lines])
    simp only [node, bind_eq_ok, setLine_eq_ok] at h
    obtain ⟨_, _, rfl, h⟩ := h
    have hst : EmissionState.Stands s file True { st with line := span.start.line } :=
      stands_line hst hline
    split at h
    · obtain ⟨rfl, rfl⟩ := pure_eq_ok.mp h
      exact ((Mapped.nil hst).imp fun _ => trivial).afterLine
    · exact ((op_mapped hst (.inl trivial) h).imp fun _ => trivial).afterLine
  | .output subject filters span, file, st, t, code, hn, hst, h => by
    have hlines := (hn.apply List.mem_cons_self).lines
    simp only [Node.lines, List.forall_mem_cons, List.forall_mem_append] at hlines
    simp only [node, bind_eq_ok, setLine_eq_ok, placed_eq_ok] at h
    obtain ⟨_, _, rfl, h⟩ := h
    exact ((output_mapped hlines.2.1 hlines.2.2 hst.onLine h).imp fun _ => trivial).afterLine
  | .tag name args body branches span, file, st, t, code, hn, hst, h => by
    obtain ⟨htag, hbody, hbranches⟩ := Node.throughout_tag.mp hn
    have hlines := htag.lines
    simp only [Node.lines, List.forall_mem_cons, List.forall_mem_append] at hlines
    obtain ⟨hline, hargs, hlabels⟩ := hlines
    obtain ⟨tag, tags, hknown, hcode⟩ := exists_tagCode h fun tag hcustom => by
      obtain ⟨_, hbuiltin, -⟩ := henv.builtin hcustom
      cases hbuiltin
    obtain ⟨_, hbuiltin, hname⟩ := henv.builtin hknown
    cases hbuiltin
    have hstart : EmissionState.Stands s file True { st with line := span.start.line, tags } :=
      ⟨hst, ⟨file, hline⟩, fun _ => hline⟩
    have hnodes : Locates s away file (Node.endAbroad s.isShared body = false) (nodes E env body) :=
      locates_of_ends fun hst h => nodes_maps hs hE henv hbody hst h
    have hbranch (index : Nat) := branchAt_mapped hs hE henv index hbranches
    suffices h : Mapped s away file (Node.endAbroad s.isShared
        [.tag name args body branches span] = false)
        { st with line := span.start.line, tags } code t from
      ⟨h.toMaps.behind rfl rfl (Nat.le_refl _) rfl, h.stands⟩
    -- what the tag emits behind what it encloses stands at home if that stays there
    have hresumes {stays : Prop}
        (hstays : ¬stays → (Node.tag name args body branches span).resumes s.isShared = true) :
        Resumes away stays name args := by
      by_cases h : stays
      · exact .inl h
      · exact .inr fun i hi => htag.closes (hstays h) i hi
    have hbodyResumes (hmem : ["for", "filter", "autoescape", "macro"].contains name = true) :
        Resumes away (Node.endAbroad s.isShared body = false) name args :=
      hresumes fun h => by
        rw [Bool.not_eq_false] at h
        rw [Node.resumes, h, hmem, Bool.and_true, Bool.or_true]
    have hends : Node.endAbroad s.isShared [.tag name args body branches span] = false →
        Node.goesAbroad s.isShared name args = false ∧ Node.endAbroad s.isShared body = false ∧
          Node.branchesEndAbroad s.isShared branches = false := fun h => by
      simpa [Node.endAbroad, and_assoc] using h
    subst hname
    cases hcode with
    | inherit => exact (Mapped.nil hstart).imp fun _ => trivial
    | @block _ _ _ block hblock hcode =>
      refine (blockLayer_mapped hE henv hstart hcode).imp fun h layer hlayer => ?_
      obtain ⟨hhere, hstays, -⟩ := hends h
      have hshared : s.isShared block = false := by
        simpa [Node.goesAbroad, BuiltinTag.name, hblock] using hhere
      have hlayer := (henv.layers block layer hlayer).1
      rw [TemplateSet.eq_of_isShared hshared hlayer (htag.definition rfl hblock)]
      exact ⟨rfl, hstays⟩
    | parent hcode =>
      exact (parentLayer_mapped hE henv hstart hcode).imp fun h => nomatch (hends h).1
    | @cond _ _ u v _ _ _ condition onFalse _ hcondition htest hyes hrest =>
      have htest : Mapped s away file True _ _ _ := expr_mapped
        (startsOn_of_mem hargs (expr_mem_of_head hcondition)) hstart.isIn htest
      have hyes := hnodes htest.stands.reserved hyes
      have hrest := alternatives_mapped hs hE henv hlabels hbranches hyes.stands hrest
      have hjump := Mapped.cons (i := .jumpIfFalse onFalse) htest.stands (.inl trivial)
        (hyes.append hrest)
      have hwhole := (htest.append hjump).imp
        fun h : Node.endAbroad s.isShared [_] = false => ⟨⟨trivial, (hends h).2.1⟩, (hends h).2.2⟩
      simpa [List.append_assoc] using hwhole
    | loop _ hcode =>
      have hcode : Mapped s away file (_ ∧ True) _ _ _ := loop_mapped hargs hnodes
        (fun _ hother => by simp at hother) (hbodyResumes rfl) hstart.isIn hcode
      exact hcode.imp fun h => ⟨(hends h).2.1, trivial⟩
    | loopOrElse _ hcode =>
      refine (loop_mapped hargs hnodes (fun other hother => ?_) (hbodyResumes rfl) hstart.isIn
        hcode).imp fun h => (hends h).2
      obtain rfl := Option.some.inj hother
      exact hbranch 0
    | assign hcode => exact (assignment_mapped hargs hstart.isIn hcode).imp fun _ => trivial
    | insert _ hcode =>
      have haway : away .popFrame := htag.closes rfl _ rfl
      have hvalue : ∀ e ∈ args.findSome? TagArg.asExpr?, ∀ line ∈ e.lines,
          s.StartsOn file line := by
        intro e he
        obtain ⟨arg, harg, he⟩ := List.exists_of_findSome?_eq_some he
        cases arg with
        | expr e' => exact startsOn_of_mem hargs (Option.some.inj he ▸ harg)
        | _ => cases he
      exact (insertTemplate_mapped hs hE henv hvalue haway hstart hcode).imp fun h =>
        nomatch (hends h).1
    | importMacros _ hmacros hstore =>
      have hmacros := importTemplate_mapped hs hE henv (fun _ => htag.closes rfl _ rfl) hstart
        hmacros
      exact (hmacros.append (op_mapped hmacros.stands (.inr (htag.closes rfl _ rfl)) hstore)).imp
        fun h => nomatch (hends h).1
    | defineMacro _ hid hbuild hstore =>
      have hresumes := hbodyResumes rfl
      obtain ⟨hid, hentered⟩ := macroCode_mapped hnodes hstart hid
      have hbuild := op_mapped hid.stands (hresumes.closing rfl) hbuild hentered
      have hstore := op_mapped hbuild.stands (hresumes.closing rfl) hstore
      exact ((hid.append hbuild).append hstore).imp fun h => (hends h).2.1
    | filter hcode =>
      exact (filtered_mapped hargs hnodes (hbodyResumes rfl) hstart hcode).imp fun h =>
        (hends h).2.1
    | escaping hcode =>
      exact (escaping_mapped hnodes (hbodyResumes rfl) hstart hcode).imp fun h => (hends h).2.1

/-- The code of nodes one after the other. -/
theorem nodes_maps {E : Elsewhere} {env : Surroundings} (hs : s.Confines away)
    (hE : E.Locates s away) (henv : env.Charted s away) :
    ∀ {ns : List Node} {file : String} {st t : EmissionState} {code : Fragment},
      Throughout (Node.Belongs s away file) ns → st.In s file → nodes E env ns st = .ok (code, t) →
        Maps s away st t code ∧ Ends s file ns st t
  | [], file, st, t, code, hns, hst, h => by
    simp only [nodes, pure_eq_ok] at h
    obtain ⟨rfl, rfl⟩ := h
    exact ⟨.nil st, .inl ⟨rfl, rfl⟩⟩
  | n :: rest, file, st, t, code, hns, hst, h => by
    obtain ⟨hn, hrest⟩ := Node.throughout_cons.mp hns
    simp only [nodes, bind_eq_ok, pure_eq_ok] at h
    obtain ⟨first, u, hfirst, second, v, hsecond, rfl, rfl⟩ := h
    have hfirst := node_mapped hs hE henv hn hst hfirst
    obtain ⟨hmaps, hends⟩ := nodes_maps hs hE henv hrest hfirst.stands.isIn hsecond
    refine ⟨hfirst.toMaps.append hmaps, .inr ?_⟩
    rcases hends with ⟨rfl, hline⟩ | hstands
    · exact ⟨hmaps.isIn hfirst.stands.isIn, hline ▸ hfirst.stands.known,
        fun h => hline ▸ hfirst.stands.home h⟩
    · by_cases hnil : rest = []
      · subst hnil
        simp only [nodes, pure_eq_ok] at hsecond
        obtain ⟨-, rfl⟩ := hsecond
        exact hfirst.stands
      · rwa [endAbroad_cons _ n hnil]

/-- The code of the branches of a condition. -/
theorem alternatives_mapped {E : Elsewhere} {env : Surroundings} (hs : s.Confines away)
    (hE : E.Locates s away) (henv : env.Charted s away) :
    ∀ {branches : List Branch} {file : String} {home : Prop} {st t : EmissionState}
      {code : Fragment} {onFalse : Nat},
      (∀ line ∈ branches.flatMap Branch.lines, s.StartsOn file line) →
      ThroughoutBranches (Node.Belongs s away file) branches → st.Stands s file home →
        alternatives E env branches st = .ok ((code, onFalse), t) →
          Mapped s away file (home ∧ Node.branchesEndAbroad s.isShared branches = false) st code t
  | [], file, home, st, t, code, onFalse, hlabels, hbranches, hst, h => by
    simp only [alternatives, bind_eq_ok, here_eq_ok, pure_eq_ok] at h
    obtain ⟨_, _, ⟨rfl, rfl⟩, heq, rfl⟩ := h
    obtain ⟨rfl, rfl⟩ := Prod.mk.inj heq
    exact (Mapped.nil hst).imp And.left
  | .mk label args body span :: rest, file, home, st, t, code, onFalse, hlabels, hbranches, hst,
      h => by
    obtain ⟨hline, hargs, hlabels⟩ := startsOn_of_branches hlabels
    obtain ⟨hbody, hrest⟩ := Node.throughoutBranches_cons.mp hbranches
    have hnodes : Locates s away file _ (nodes E env body) :=
      locates_of_ends fun hst h => nodes_maps hs hE henv hbody hst h
    have hstart : EmissionState.Stands s file True { st with line := span.start.line } :=
      stands_line hst.isIn hline
    simp only [alternatives, bind_eq_ok, setLine_eq_ok, reserve_eq_ok, here_eq_ok] at h
    obtain ⟨_, _, rfl, _, _, ⟨rfl, rfl⟩, _, _, ⟨rfl, rfl⟩, h⟩ := h
    have hends : Node.branchesEndAbroad s.isShared (.mk label args body span :: rest) = false →
        Node.endAbroad s.isShared body = false ∧
          Node.branchesEndAbroad s.isShared rest = false := fun h => by
      simpa [Node.branchesEndAbroad] using h
    cases hcondition : args.head?.bind TagArg.asExpr? with
    | some condition =>
      simp only [hcondition, bind_eq_ok, reserve_eq_ok, here_eq_ok, pure_eq_ok] at h
      obtain ⟨test, u, htest, _, _, ⟨rfl, rfl⟩, yes, v, hyes, ⟨more, onFalse'⟩, w, hmore, _, _,
        ⟨rfl, rfl⟩, heq, rfl⟩ := h
      obtain ⟨rfl, rfl⟩ := Prod.mk.inj heq
      have htest : Mapped s away file True _ _ _ := expr_mapped
        (startsOn_of_mem hargs (expr_mem_of_head hcondition)) hstart.reserved.isIn htest
      have hyes := hnodes htest.stands.reserved hyes
      have hmore := alternatives_mapped hs hE henv hlabels hrest hyes.stands hmore
      have hjump := Mapped.cons (i := .jumpIfFalse onFalse') htest.stands (.inl trivial)
        (hyes.append hmore)
      have hskip := Mapped.cons (i := .jump w.next) hstart (.inl trivial) (htest.append hjump)
      have hwhole := hskip.afterLine.imp
        fun h : home ∧ _ => ⟨⟨trivial, (hends h.2).1⟩, (hends h.2).2⟩
      simpa [List.append_assoc] using hwhole
    | none =>
      simp only [hcondition, bind_eq_ok, here_eq_ok, pure_eq_ok] at h
      obtain ⟨yes, u, hyes, ⟨more, onFalse'⟩, v, hmore, _, _, ⟨rfl, rfl⟩, heq, rfl⟩ := h
      obtain ⟨rfl, rfl⟩ := Prod.mk.inj heq
      have hyes := hnodes hstart.reserved hyes
      have hmore := alternatives_mapped hs hE henv hlabels hrest hyes.stands hmore
      have hskip := Mapped.cons (i := .jump v.next) hstart (.inl trivial) (hyes.append hmore)
      exact hskip.afterLine.imp fun h => ⟨⟨trivial, (hends h.2).1⟩, (hends h.2).2⟩

/-- The code of one branch. -/
theorem branchAt_mapped {E : Elsewhere} {env : Surroundings} (hs : s.Confines away)
    (hE : E.Locates s away) (henv : env.Charted s away) :
    ∀ {branches : List Branch} {file : String} (index : Nat),
      ThroughoutBranches (Node.Belongs s away file) branches →
        Locates s away file (Node.branchesEndAbroad s.isShared branches = false)
          (branchAt E env branches index)
  | [], file, index, hbranches => by
    intro home st t code hst h
    simp only [branchAt, pure_eq_ok] at h
    obtain ⟨rfl, rfl⟩ := h
    exact (Mapped.nil hst).imp And.left
  | .mk label args body span :: rest, file, 0, hbranches => by
    intro home st t code hst h
    rw [branchAt] at h
    have hnodes : Locates s away file _ (nodes E env body) := locates_of_ends fun hst h =>
      nodes_maps hs hE henv (Node.throughoutBranches_cons.mp hbranches).1 hst h
    refine (hnodes hst h).imp fun h => ⟨h.1, ?_⟩
    simpa using (by simpa [Node.branchesEndAbroad] using h.2 : _ ∧ _).1
  | .mk label args body span :: rest, file, index + 1, hbranches => by
    intro home st t code hst h
    rw [branchAt] at h
    refine (branchAt_mapped hs hE henv index (Node.throughoutBranches_cons.mp hbranches).2
      hst h).imp fun h => ⟨h.1, ?_⟩
    simpa using (by simpa [Node.branchesEndAbroad] using h.2 : _ ∧ _).2

end

/-- The code of nodes, however deep references nest. -/
theorem atDepth_locates (hs : s.Confines away) (depth : Nat) : (atDepth depth).Locates s away := by
  induction depth with
  | zero =>
    intro env ns file st t code _ _ _ h
    simp [atDepth, fail_eq_ok] at h
  | succ depth ih => exact fun _ _ _ _ _ _ henv hns hst h => nodes_maps hs ih henv hns hst h

end Emission

end Templating
