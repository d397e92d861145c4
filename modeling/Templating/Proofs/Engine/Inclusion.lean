import Mathlib
import Templating.Engine.Basic
import Templating.Proofs.Program.Inlining
import Templating.Proofs.Program.References

/-!
# Rendering through an include

A source that does nothing but include a named template compiles when that template does, and its
program runs the template's main code in a frame of its own, over one that has nothing but the
context. So both renders come to the same end, if the calls that the template makes do not depend on
the variables it stored: macros run over the outermost frame of all, which is that of the template
in one render and that of the including source in the other.
-/

namespace Templating

namespace TemplateSet

variable {s : TemplateSet} {registry : Registry} {own included : String} {span : Span}

/-- A set stays regular under a template that does nothing but include another one. -/
theorem Regular.under (h : s.Regular registry)
    (htag : registry.tag? "include" = some (.builtin .insert)) :
    (s.under (.including own included span)).Regular registry := by
  have hroot : (Template.including own included span).Regular registry := by
    refine ⟨?_, ?_, by simp [Template.including, UInt64.size]⟩
    · refine Node.throughout_tag.mpr ⟨fun tag hcustom => ?_, ?_, ?_⟩
      · simp [htag] at hcustom
      · simp [Node.Throughout, Node.everywhere]
      · simp [Node.ThroughoutBranches, Node.everywhereInBranches]
    · refine Node.throughout_tag.mpr ⟨?_, ?_, ?_⟩
      · simp [Node.Fits, Emission.ArgsFit]
      · simp [Node.Throughout, Node.everywhere]
      · simp [Node.ThroughoutBranches, Node.everywhereInBranches]
  intro t ht
  simp only [TemplateSet.under, templates, List.mem_cons, List.mem_append, List.not_mem_nil,
    or_false] at ht
  rcases ht with rfl | ht | rfl
  · exact hroot
  · exact h t (List.mem_cons_of_mem _ ht)
  · exact h _ List.mem_cons_self

/-- From the bound on levels on the compiled program is the same. -/
theorem CompilesWithin.compileAt_eq {autoescape : Bool} {name : String} {bound depth depth' : Nat}
    (h : s.CompilesWithin registry autoescape name bound) (hdepth : bound ≤ depth)
    (hdepth' : bound ≤ depth') :
    s.compileAt registry autoescape name depth = s.compileAt registry autoescape name depth' := by
  obtain ⟨result, hresult⟩ := h
  simp only [compileAt, Emission.atDepth_eq_levels]
  rw [hresult depth hdepth, hresult depth' hdepth']

end TemplateSet

namespace Engine

/-- A named template that compiles by itself, with a reference and a level of references to spare,
and none of whose templates asks for the one without a name. -/
structure Includable (e : Engine) (name source : String) (options : Options) (s : TemplateSet)
    (p : Program) : Prop where
  load : e.templates.load name = .ok (some source)
  compile : e.compileAs name source options = .ok p
  references : ∃ budget < TemplateSet.loadBudget,
    s.LoadsWithin e.registry options.controls e.templates.load name source budget
  levels : ∃ bound < TemplateSet.referenceBudget,
    s.CompilesWithin e.registry options.autoescape entryPoint bound
  regular : s.Regular e.registry
  name_ne : name ≠ anonymousName
  names : ∀ t ∈ s.templates, Node.Throughout (Node.Names (· ≠ anonymousName)) t.nodes

variable {e : Engine} {name source including : String} {options : Options} {s : TemplateSet}
  {p : Program} {span : Span}

/-- The set of such a template compiles to its program, also with one level less. -/
theorem Includable.compile_set (h : e.Includable name source options s p) :
    s.compile e.registry options.autoescape entryPoint = .ok p ∧
      ∃ depth, TemplateSet.referenceBudget = depth + 1 ∧
        s.compileAt e.registry options.autoescape entryPoint depth = .ok p := by
  obtain ⟨budget, hbudget, hloads⟩ := h.references
  obtain ⟨bound, hbound, hlevels⟩ := h.levels
  obtain ⟨-, -, hcompile⟩ := Result.bind_eq_ok.mp h.compile
  rw [hloads.load_eq (Nat.le_of_lt hbudget)] at hcompile
  obtain ⟨more, hmore⟩ := Nat.exists_eq_add_of_lt hbound
  refine ⟨hcompile, bound + more, hmore, ?_⟩
  rw [hlevels.compileAt_eq (Nat.le_add_right bound more) (Nat.le_of_lt hbound)]
  exact hcompile

/-- A source that does nothing but include such a template compiles to a program that runs the main
code of that template in a frame of its own. -/
theorem Includable.exists_compile (h : e.Includable name source options s p)
    (htag : e.registry.tag? "include" = some (.builtin .insert))
    (hincluding : Template.parse e.registry options.controls anonymousName including =
      .ok (.including anonymousName name span)) (hline : span.start.line = 1) :
    ∃ (q : Program) (f g : Fragment) (push pop : Placed),
      e.compile including options = .ok q ∧
      (s.under (.including anonymousName name span)).compile e.registry options.autoescape
        entryPoint = .ok q ∧ p.FramedIn q f g push pop := by
  obtain ⟨-, depth, hdepth, hset⟩ := h.compile_set
  obtain ⟨budget, hbudget, hloads⟩ := h.references
  obtain ⟨rfl, hloaded⟩ := hloads.names
  obtain ⟨_, hcheck, -⟩ := Result.bind_eq_ok.mp h.compile
  have hbuiltin : ∀ t ∈ s.templates, Node.Throughout (Node.IsBuiltin e.registry) t.nodes :=
    fun t ht => (h.regular t ht).builtin
  obtain ⟨q, f, g, push, pop, hunder, hframed⟩ :=
    TemplateSet.compileAt_under htag (Ne.symm h.name_ne)
      (TemplateSet.within_under (.including anonymousName s.root.name span) hloaded h.names)
      hbuiltin hline hset
  have hcompile : (s.under (.including anonymousName s.root.name span)).compile e.registry
      options.autoescape entryPoint = .ok q := by
    rw [TemplateSet.compile, hdepth]
    exact hunder
  refine ⟨q, f, g, push, pop, ?_, hcompile, hframed⟩
  exact Result.bind_eq_ok.mpr ⟨_, hcheck, Result.bind_eq_ok.mpr
    ⟨_, hloads.load_including hbudget h.name_ne h.load htag hincluding hbuiltin h.names, hcompile⟩⟩

/-- Rendering a source that does nothing but include a template comes to the same end as rendering
the template itself, with the same output or the same error, if the calls that the template makes do
not depend on the variables it stored. -/
theorem include_settles_alike {linked : LinkedProgram} (h : e.Includable name source options s p)
    (htag : e.registry.tag? "include" = some (.builtin .insert))
    (hfilters : ∀ row ∈ e.registry.filters, row.2.Conclusive)
    (hincluding : Template.parse e.registry options.controls anonymousName including =
      .ok (.including anonymousName name span)) (hline : span.start.line = 1)
    (hlink : p.link e.registry = .ok linked) :
    ∃ q linked', e.compile including options = .ok q ∧ q.link e.registry = .ok linked' ∧
      ∀ context,
        (∃ least, ∀ budget, least ≤ budget → linked.CallsIgnoreLocals context budget) →
          ∃ r : Result String, r.Conclusive ∧
            Settles (fun budget => linked.runWithin budget context) r ∧
            Settles (fun budget => linked'.runWithin budget context) r := by
  obtain ⟨q, f, g, push, pop, hcompile, hset', hframed⟩ := h.exists_compile htag hincluding hline
  have hset := h.compile_set.1
  have hlink' : q.link e.registry = .ok ⟨q, linked.filters⟩ := by
    rw [Program.link_congr hframed.filters, hlink]
    rfl
  refine ⟨q, _, hcompile, hlink', fun context ⟨least, hcalls⟩ => ?_⟩
  obtain ⟨r, hr, enough, hrun⟩ := TemplateSet.exists_runMain h.regular hfilters hset hlink context
  obtain ⟨r', _, enough', hrun'⟩ :=
    TemplateSet.exists_runMain (h.regular.under htag) hfilters hset' hlink' context
  refine ⟨_, hr.map fun m => m.output.text, LinkedProgram.runWithin_settles ⟨enough, hrun⟩, ?_⟩
  have hstructured : Structured 0 f.instructions 0 0 := by
    obtain ⟨main, _, hmain, _, _, _, _, _, hstructured⟩ :=
      TemplateSet.compileAt_eq_ok h.regular hset
    have hsame : main.instructions = f.instructions := by
      rw [Fragment.instructions, Fragment.instructions, ← (Code.ofFragment_describes main).1,
        ← (Code.ofFragment_describes f).1, ← hmain, hframed.inner]
    rwa [hsame] at hstructured
  obtain ⟨rfl, -⟩ := Program.link_eq_ok hlink
  let linked' : LinkedProgram := ⟨q, linked.filters⟩
  have hframed' : linked.program.FramedIn linked'.program f g push pop := hframed
  let budget := max least (max enough enough')
  have hended (steps : Nat) (hsteps : max enough enough' ≤ steps) := hrun budget steps
    (by omega) (by omega)
  have hended' (steps : Nat) (hsteps : max enough enough' ≤ steps) := hrun' budget steps
    (by omega) (by omega)
  have htext : (r'.map fun m => m.output.text) = r.map fun m => m.output.text :=
    LinkedProgram.text_eq_of_framedIn hframed' rfl hstructured
      (hcalls budget (Nat.le_max_left _ _)) hended hended'
  exact htext ▸ LinkedProgram.runWithin_settles ⟨enough', hrun'⟩

/-- A named template is compiled as its source. -/
theorem compileTemplate_eq (h : e.templates.load name = .ok (some source)) :
    e.compileTemplate name = e.compileAs name source e.defaults := by
  have hsource : e.source name = .ok source := by simp only [Engine.source, h]
  simp only [compileTemplate, hsource]
  rfl

/-- Code without calls makes no calls that could depend on variables. -/
theorem callsIgnoreLocals_of_no_calls {linked : LinkedProgram} {context : Value} {budget : Nat}
    (h : (linked.program.main.instructions.all fun i => !i.isCall) = true) :
    linked.CallsIgnoreLocals context budget := by
  intro m args _ hfetch
  have hcall := Array.all_eq_true_iff_forall_mem.mp h _ (Array.mem_of_getElem? hfetch)
  simp [Instruction.isCall] at hcall

/-- A stretch of the first line of a source. -/
def onLine (first last : Nat) : Span := ⟨⟨1, first, first⟩, ⟨1, last, last⟩⟩

/-- A template that sets a variable and includes another one, which writes it. -/
def passing : TemplateSet where
  root := ⟨"page", [
    .tag "set" [.ident "x", .expr (.const (.int 1) (onLine 11 12))] [] [] (onLine 0 15),
    .include "part" (onLine 15 35)]⟩
  loaded := [⟨"part", [.output (.var "x" (onLine 3 4)) [] (onLine 0 7)]⟩]

/-- The source of the template. -/
def passingSource : String := "\x7b% set x = 1 %\x7d\x7b% include \"part\" %\x7d"

/-- An engine with the template and the one it includes. -/
def passingEngine : Engine :=
  (Engine.addTemplate {} "page" passingSource).addTemplate "part" "\x7b\x7b x \x7d\x7d"

set_option maxRecDepth 100000 in
/-- The template is loaded in three steps. -/
theorem passing_loadsWithin :
    passing.LoadsWithin .initial {} passingEngine.templates.load "page" passingSource 3 :=
  ⟨passing.root, by cbv, by cbv⟩

/-- What holds of the nodes of both templates at every depth. -/
theorem passing_throughout {P : Node → Prop}
    (hset : P (.tag "set" [.ident "x", .expr (.const (.int 1) (onLine 11 12))] [] [] (onLine 0 15)))
    (hinclude : P (.include "part" (onLine 15 35)))
    (houtput : P (.output (.var "x" (onLine 3 4)) [] (onLine 0 7))) :
    ∀ t ∈ passing.templates, Node.Throughout P t.nodes := by
  intro t ht
  simp only [passing, TemplateSet.templates, List.mem_cons, List.not_mem_nil, or_false] at ht
  rcases ht with rfl | rfl
  · simpa [Node.Throughout, Node.include, Node.everywhere, Node.everywhereInBranches] using
      ⟨hset, hinclude⟩
  · simpa [Node.Throughout, Node.everywhere] using houtput

/-- The templates compile within six levels of references. -/
theorem passing_compilesWithin : passing.CompilesWithin .initial true entryPoint 6 := by
  have hwhole : ∀ t ∈ passing.templates, Node.Throughout (Node.IsWhole .initial) t.nodes :=
    fun t ht => TemplateSet.isWhole_initial
      (passing_throughout ⟨by decide, by decide⟩ ⟨by decide, by decide⟩ trivial t ht)
  have hacyclic : ∀ t ∈ passing.templates,
      ¬ Relation.TransGen (passing.ImportsInMacro .initial) t t := by
    refine TemplateSet.acyclic_of_rank (r := fun _ => 0) fun t ht u ⟨body, hbody, _⟩ => ?_
    simp only [passing, TemplateSet.templates, List.mem_cons, List.not_mem_nil, or_false] at ht
    rcases ht with rfl | rfl <;> simp [Node.include, macroBodies] at hbody
  refine ⟨passing.compileThrough .initial true entryPoint (Emission.atDepth 6),
    fun depth hdepth E => ?_⟩
  obtain ⟨more, rfl⟩ := Nat.exists_eq_add_of_le hdepth
  rw [Emission.atDepth_eq_levels, Emission.levels_add, TemplateSet.compileThrough,
    TemplateSet.compileThrough, TemplateSet.emitRoot_levels_eq hwhole hacyclic (Nat.le_refl 6)]

set_option maxRecDepth 100000 in
/-- The template comes to the same end whether it is rendered or included, over every context. -/
theorem include_settles_alike_passing :
    ∃ p linked q linked', passingEngine.compileTemplate "page" = .ok p ∧
      p.link .initial = .ok linked ∧
      passingEngine.compile "\x7b% include \"page\" %\x7d" {} = .ok q ∧
      q.link .initial = .ok linked' ∧ linked.run (.map []) = .ok "1" ∧
      ∀ context, ∃ r : Result String, r.Conclusive ∧
        Settles (fun budget => linked.runWithin budget context) r ∧
        Settles (fun budget => linked'.runWithin budget context) r := by
  have hload : passingEngine.templates.load "page" = .ok (some passingSource) := by cbv
  rw [compileTemplate_eq hload]
  have hall : (do
      let p ← passingEngine.compileAs "page" passingSource passingEngine.defaults
      let linked ← p.link .initial
      return (p.main.instructions.all fun i => !i.isCall, ← linked.run (.map []))) =
        (.ok (true, "1") : Result (Bool × String)) :=
    Result.eq_ok_of_toOption (by decide +kernel)
  obtain ⟨p, hcompile, hall⟩ := Result.bind_eq_ok.mp hall
  obtain ⟨linked, hlink, hall⟩ := Result.bind_eq_ok.mp hall
  obtain ⟨text, htext, hall⟩ := Result.bind_eq_ok.mp hall
  obtain ⟨hcalls, rfl⟩ := Prod.mk.inj (Except.ok.inj hall)
  have hincluding : Template.parse .initial {} anonymousName "\x7b% include \"page\" %\x7d" =
      .ok (.including anonymousName "page" (onLine 0 20)) := by cbv
  have hpage : passingEngine.Includable "page" passingSource {} passing p :=
    { load := hload
      compile := hcompile
      references := ⟨3, by decide, passing_loadsWithin⟩
      levels := ⟨6, by decide, passing_compilesWithin⟩
      regular := fun t ht =>
        ⟨fun n _ => n.isBuiltin_initial,
          passing_throughout (by simp [Node.Fits, Emission.ArgsFit, Expr.Fits])
            (by simp [Node.include, Node.Fits, Emission.ArgsFit])
            (by simp [Node.Fits, Emission.ChainFits, Expr.Fits]) t ht, by
          simp only [passing, TemplateSet.templates, List.mem_cons, List.not_mem_nil,
            or_false] at ht
          rcases ht with rfl | rfl <;> simp [UInt64.size]⟩
      name_ne := by decide
      names := passing_throughout (by simp [Node.Names])
        (by simp [Node.include, Node.Names, anonymousName]) trivial }
  obtain ⟨q, linked', hq, hlink', hsettles⟩ := include_settles_alike hpage rfl
    Filter.builtin_conclusive hincluding rfl hlink
  obtain ⟨hprogram, -⟩ := Program.link_eq_ok hlink
  subst hprogram
  exact ⟨linked.program, linked, q, linked', hcompile, hlink, hq, hlink', htext, fun context =>
    hsettles context ⟨0, fun _ _ => callsIgnoreLocals_of_no_calls hcalls⟩⟩

/-- The source of a template with a macro that calls itself until it comes to zero. -/
def countdownSource : String :=
  "\x7b% macro f(n) %\x7d\x7b% if n %\x7d\x7b\x7b n \x7d\x7d\x7b\x7b f(n - 1) \x7d\x7d" ++
    "\x7b% endif %\x7d\x7b% endmacro %\x7d\x7b\x7b f(2) \x7d\x7d"

set_option maxRecDepth 100000 in
/-- The condition on calls cannot be left out: a macro that calls itself finds itself among the
variables of the template when that is rendered, but not when it is included. -/
theorem not_forall_render_include :
    ¬ ∀ (source : String) (context : Data),
      let e := Engine.addTemplate {} "page" source
      (e.renderTemplate "page" context).1.isOk = true →
        (e.render "\x7b% include \"page\" %\x7d" context e.defaults).1 =
          (e.renderTemplate "page" context).1 := by
  intro h
  have hrendered : ((Engine.addTemplate {} "page" countdownSource).renderTemplate "page"
      (.map [])).1.isOk = true := by decide +kernel
  have htexts := congrArg Except.toOption (h countdownSource (.map []) hrendered)
  revert htexts
  decide +kernel

end Engine

end Templating
