import Templating.Proofs.Emission.SourceMapTemplates
import Templating.Proofs.Engine.Transparency
import Templating.Proofs.Machine.Blame
import Templating.Proofs.Program.LineTable
import Templating.Proofs.Program.Termination
import Templating.Proofs.Template.ParsedLines
import Templating.Proofs.Template.Parsing

/-!
# Source maps

The line table of a program gives every instruction a template and a line, and errors of a run are
reported there. The template is always one of the set. The line is one on which something starts in
that template, unless the instruction is one that a tag emits right behind code of another template:
emission comes back to the file of the tag then, but stays on the line that the other template ended
on. Of the instructions that tags emit there only the filter of a filter tag without arguments can
fail, so that without such a filter behind other templates errors have lines of their templates.
-/

namespace Templating

open Node (Throughout)
open Result (FailsWith)

/-- The tag applies a filter without arguments right behind code that may come from another
template. -/
def Node.filtersAbroad (shared : String → Bool) : Node → Bool
  | .tag name args body .. => name == "filter" && args.length == 1 && endAbroad shared body
  | _ => false

namespace TemplateSet

variable {s : TemplateSet} {registry : Registry} {p : Program}

/-- No tag has instructions of its own right behind code of another template. -/
def StaysHome (s : TemplateSet) : Prop :=
  ∀ t ∈ s.templates, Throughout (fun n => n.resumes s.isShared = false) t.nodes

/-- No filter without arguments is applied right behind code of another template. -/
def FiltersHome (s : TemplateSet) : Prop :=
  ∀ t ∈ s.templates, Throughout (fun n => n.filtersAbroad s.isShared = false) t.nodes

instance decidableStaysHome (s : TemplateSet) : Decidable s.StaysHome :=
  inferInstanceAs (Decidable (∀ t ∈ s.templates, ∀ n ∈ Node.everywhere t.nodes, _ = false))

instance decidableFiltersHome (s : TemplateSet) : Decidable s.FiltersHome :=
  inferInstanceAs (Decidable (∀ t ∈ s.templates, ∀ n ∈ Node.everywhere t.nodes, _ = false))

/-- Some tag of the set emits the instruction right behind code of another template. -/
def Resumes (s : TemplateSet) (i : Instruction) : Prop :=
  ∃ t ∈ s.templates, ∃ n ∈ Node.everywhere t.nodes,
    n.resumes s.isShared = true ∧ n.closesWith i = true

/-- Such instructions are the only ones that can be away. -/
theorem confines_resumes (s : TemplateSet) : s.Confines s.Resumes :=
  fun t ht n hn hresumes _ hcloses => ⟨t, ht, n, hn, hresumes, hcloses⟩

/-- If there are none, nothing is away. -/
theorem StaysHome.confines (h : s.StaysHome) : s.Confines fun _ => False :=
  fun t ht n hn hresumes _ _ => by
    have hstays : n.resumes s.isShared = false := h t ht n hn
    rw [hresumes] at hstays
    cases hstays

/-- If filters are applied at home, what is away does not fail. -/
theorem FiltersHome.confines (h : s.FiltersHome) : s.Confines fun i => i.mayFail = false := by
  intro t ht n hn hresumes i hcloses
  have hhome : n.filtersAbroad s.isShared = false := h t ht n hn
  cases n with
  | tag name args body branches span =>
    cases i with
    | applyFilter filter count =>
      simp only [Node.closesWith, Instruction.closes, Bool.and_eq_true, beq_iff_eq] at hcloses
      obtain ⟨rfl, hargs⟩ := hcloses
      simp [Node.resumes] at hresumes
      simp [Node.filtersAbroad, hargs, hresumes] at hhome
    | add | sub | mul | div | rem | neg | call | iterate =>
      simp [Node.closesWith, Instruction.closes] at hcloses
    | _ => rfl
  | _ => simp [Node.resumes] at hresumes

/-- Every instruction of a program comes from a template of the set, from a line on which something
starts there or is of the kind that may be away. -/
theorem places_of_compileAt {away : Instruction → Prop} (haway : s.Confines away)
    (hbuiltin : registry.OnlyBuiltinTags) {autoescape : Bool} {name : String} {depth : Nat}
    (h : s.compileAt registry autoescape name depth = .ok p) :
    ∀ c ∈ p.codes, ∀ {pc : Nat} {i : Instruction}, c.instructions[pc]? = some i →
      (∃ place, p.location? c pc = some place ∧ (∃ t ∈ s.templates, t.name = place.template) ∧
        (s.StartsOn place.template place.line ∨
          away i ∧ ∃ other, s.StartsOn other place.line)) ∧
      i.RefersWithin p.filters.size p.macros.size := by
  obtain ⟨⟨main, t⟩, hemit, h⟩ := Result.bind_eq_ok.mp h
  obtain rfl := Except.ok.inj h
  obtain ⟨u, v, hin, -, hemit, -, hmaps⟩ :=
    Emission.inFile_maps (s := s) ⟨s.root, List.mem_cons_self, rfl⟩ hemit
  obtain ⟨resolved, w, hresolve, hmain⟩ := Emission.bind_eq_ok.mp hemit
  obtain ⟨hresolved, rfl⟩ := Emission.lift_eq_ok.mp hresolve
  have henv : Emission.Surroundings.Charted s away
      { registry, set := s, resolved, including := [s.root.name] } :=
    ⟨rfl, hbuiltin, haway.belongs_layers List.mem_cons_self hresolved⟩
  have hmaps := hmaps main (Emission.nodesOf_maps (Emission.atDepth_locates haway depth) henv
    (haway.belongs_body List.mem_cons_self hresolved) hmain).1
  have hlocated : ∀ c ∈ Program.codes
      { name, autoescape, files := t.files, filters := t.filters, tags := t.tags
        main := Code.ofFragment main, macros := t.macros }, c.Located s away t := by
    refine List.forall_mem_cons.mpr ⟨⟨main, rfl, hmaps.code⟩, fun c hc => ?_⟩
    obtain ⟨decl, hdecl, rfl⟩ := List.mem_map.mp hc
    exact hmaps.macros (by simp) decl (Array.mem_toList_iff.mp hdecl)
  intro c hc pc i hi
  obtain ⟨f, rfl, hf⟩ := hlocated c hc
  rw [Code.getElem?_ofFragment] at hi
  obtain ⟨placed, hplaced, rfl⟩ := Option.map_eq_some_iff.mp hi
  obtain ⟨⟨template, htemplate, hfile, hline⟩, hrefers⟩ := hf placed (List.mem_of_getElem? hplaced)
  refine ⟨⟨⟨template.name, placed.line⟩, ?_, ⟨template, htemplate, rfl⟩, hline⟩, hrefers⟩
  simp [Program.location?, Code.place?_ofFragment hplaced, hfile]

/-- What the source map of a program says of the templates that it was compiled from. Everything in
them starts on lines of their sources. Every instruction has a place in a template of the set, on a
line on which something starts there or that code of another template left to it. -/
structure IsMapped (s : TemplateSet) (sources : String → Option String) (p : Program) : Prop where
  lines : ∀ {file line}, s.StartsOn file line → ∃ text, sources file = some text ∧
    1 ≤ line ∧ line ≤ 1 + text.toList.count '\n'
  places : ∀ c ∈ p.codes, ∀ {pc i}, c.instructions[pc]? = some i →
    ∃ place, p.location? c pc = some place ∧ (∃ t ∈ s.templates, t.name = place.template) ∧
      (s.StartsOn place.template place.line ∨
        s.Resumes i ∧ ∃ other, s.StartsOn other place.line)
  home : s.StaysHome → ∀ c ∈ p.codes, ∀ {pc i}, c.instructions[pc]? = some i →
    ∃ place, p.location? c pc = some place ∧ s.StartsOn place.template place.line
  errors : s.FiltersHome → ∀ linked : LinkedProgram, linked.program = p → linked.FiltersPlain →
    ∀ context, (linked.run context).FailsWith fun e => e = .ofFault .outOfSteps ∨
      ∃ place, e.location? = some place ∧ s.StartsOn place.template place.line

/-- Things start on lines of the sources that the templates were parsed from. -/
theorem exists_source_of_startsOn {controls : Controls} {provider : SourceProvider}
    {root source : String} (hcontrols : controls.check = .ok ())
    (hbuiltin : registry.OnlyBuiltinTags)
    (h : load registry controls provider root source = .ok s) {file : String} {line : Nat}
    (hline : s.StartsOn file line) :
    ∃ text, sourceOf? provider root source file = some text ∧
      1 ≤ line ∧ line ≤ 1 + text.toList.count '\n' := by
  obtain ⟨t, ht, rfl, hline⟩ := hline
  obtain ⟨text, htext, hparse⟩ := isParsed_of_load h t ht
  obtain ⟨token, htoken, rfl⟩ :=
    ((Template.run_template_spec hcontrols hbuiltin.exists_builtin).1 t hparse).2 line hline
  exact ⟨text, htext, line_of_mem_lex hcontrols htoken⟩

end TemplateSet

namespace Engine

/-- Whatever templates a program is compiled from that use built-in tags only, its source map leads
to them. -/
theorem isMapped_of_compileAs {e : Engine} (hbuiltin : e.registry.OnlyBuiltinTags)
    {name source : String} {options : Options} {p : Program}
    (h : e.compileAs name source options = .ok p) :
    ∃ s, TemplateSet.load e.registry options.controls e.templates.load name source = .ok s ∧
      s.IsMapped (TemplateSet.sourceOf? e.templates.load name source) p := by
  obtain ⟨⟨⟩, hoptions, h⟩ := Result.bind_eq_ok.mp h
  obtain ⟨s, hload, hcompile⟩ := Result.bind_eq_ok.mp h
  refine ⟨s, hload, ?_⟩
  have hplaces {away : Instruction → Prop} (haway : s.Confines away) :=
    TemplateSet.places_of_compileAt haway hbuiltin hcompile
  exact
    { lines := TemplateSet.exists_source_of_startsOn hoptions hbuiltin hload
      places := fun c hc _ _ hi => (hplaces s.confines_resumes c hc hi).1
      home := fun hhome c hc _ _ hi => by
        obtain ⟨⟨place, hplace, -, hline⟩, -⟩ := hplaces hhome.confines c hc hi
        exact ⟨place, hplace, hline.resolve_right And.left⟩
      errors := by
        rintro hhome linked rfl hfilters context
        have hcharted : linked.Charted := fun c hc _ _ hi =>
          ⟨(hplaces hhome.confines c hc hi).1.imp fun _ => And.left,
            (hplaces hhome.confines c hc hi).2⟩
        refine (LinkedProgram.runWithin_blames hcharted hfilters stepBudget context).imp ?_
        rintro e (rfl | ⟨place, hplace, c, hc, pc, i, hi, hfails, hlocation⟩)
        · exact .inl rfl
        · obtain ⟨⟨other, hother, -, hline⟩, -⟩ := hplaces hhome.confines c hc hi
          obtain rfl := Option.some.inj (hlocation.symm.trans hother)
          refine .inr ⟨place, hplace, hline.resolve_right fun h => ?_⟩
          rw [h.1] at hfails
          cases hfails }

/-- A loop over several lines. -/
def joiningLines : String :=
  "\x7b% for x in xs %\x7d\n\x7b\x7b x | join \x7d\x7d\n\x7b% endfor %\x7d"

set_option maxRecDepth 100000 in
/-- The source map of a loop leads to its lines, and so do the errors of runs. -/
theorem isMapped_of_compileAs_loop :
    ∃ (p : Program) (s : TemplateSet) (linked : LinkedProgram),
      compile {} joiningLines {} = .ok p ∧ p.link .initial = .ok linked ∧ linked.FiltersPlain ∧
        s.StaysHome ∧ s.FiltersHome ∧
          s.IsMapped (TemplateSet.sourceOf? (Engine.templates {}).load anonymousName joiningLines)
            p := by
  have hbuilt : (do
      let p ← compile {} joiningLines {}
      let s ← TemplateSet.load .initial {} (Engine.templates {}).load anonymousName joiningLines
      let _ ← p.link .initial
      return decide (s.StaysHome ∧ s.FiltersHome)) = (.ok true : Result Bool) :=
    Result.eq_ok_of_toOption (by decide +kernel)
  obtain ⟨p, hp, hbuilt⟩ := Result.bind_eq_ok.mp hbuilt
  obtain ⟨s, hs, hbuilt⟩ := Result.bind_eq_ok.mp hbuilt
  obtain ⟨linked, hlink, hbuilt⟩ := Result.bind_eq_ok.mp hbuilt
  obtain ⟨hstays, hfilters⟩ := of_decide_eq_true (Except.ok.inj hbuilt)
  obtain ⟨s', hload, hmapped⟩ := isMapped_of_compileAs Registry.onlyBuiltinTags_initial hp
  obtain rfl := Except.ok.inj (hs.symm.trans hload)
  exact ⟨p, s, linked, hp, hlink,
    LinkedProgram.forall_filters_of_link Filter.builtin_plain hlink, hstays, hfilters, hmapped⟩

/-- A filter without the argument that it needs, behind the code of another template. -/
def replacingIncluded : String :=
  "\x7b% filter replace %\x7d\x7b% include \"t\" %\x7d\x7b% endfilter %\x7d"

set_option maxRecDepth 100000 in
/-- The condition on filters cannot be left out: the error of a filter behind another template is
placed on the line of the other template, which the template of the filter need not have. -/
theorem not_forall_errors_in_sources :
    ¬ ∀ (e : Engine) (source : String) (context : Data) (options : Options) (p : Program),
      e.registry.OnlyBuiltinTags → e.compile source options = .ok p →
        (e.run p context options).FailsWith fun err => ∀ place ∈ err.location?, ∃ text,
          TemplateSet.sourceOf? e.templates.load anonymousName source place.template = some text ∧
            place.line ≤ 1 + text.toList.count '\n' := by
  intro h
  let e : Engine := Engine.addTemplate {} "t" "\n\n\n\x7b\x7b 1 \x7d\x7d"
  have hplace : ((e.compile replacingIncluded {}).toOption.map fun p =>
      failedAt? (e.run p (.map []) {})) = some (some ⟨anonymousName, 4⟩) := by
    decide +kernel
  cases hp : e.compile replacingIncluded {} with
  | error err => simp [hp, Except.toOption] at hplace
  | ok p =>
    rw [hp] at hplace
    cases hrun : e.run p (.map []) {} with
    | ok text => simp [hrun, Except.toOption, failedAt?] at hplace
    | error err =>
      have herr : err.location? = some ⟨anonymousName, 4⟩ := by
        simpa [hrun, Except.toOption, failedAt?] using hplace
      obtain ⟨text, htext, hline⟩ :=
        h e _ _ _ p Registry.onlyBuiltinTags_initial hp err hrun _ herr
      obtain rfl : replacingIncluded = text := by simpa [TemplateSet.sourceOf?] using htext
      have hcount : replacingIncluded.toList.count '\n' = 0 := by decide
      simp [hcount] at hline

end Engine

end Templating
