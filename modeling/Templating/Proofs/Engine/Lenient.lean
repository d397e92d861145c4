import Templating.Proofs.Engine.Transparency
import Templating.Proofs.Machine.Outputs
import Templating.Proofs.Program.Tagless

/-!
# Rendering without arithmetic, filters and calls

A source of literal text and of outputs of lenient expressions always renders, over every context:
whatever is missing or of another kind than expected, nothing fails. What is rendered is the literal
text and the texts of the values.
-/

namespace Templating

/-- Lenient nodes have no tags. -/
theorem Node.IsTagless.of_isLenient {n : Node} (h : n.isLenient = true) : n.IsTagless := by
  cases n with
  | tag name args body branches span => cases h
  | literal text span => trivial
  | output e filters span => trivial

/-- A source that can be read under one name can be read as the same nodes under every name. -/
theorem Template.parse_rename {registry : Registry} {controls : Controls} {name source : String}
    {t : Template} (h : Template.parse registry controls name source = .ok t) (other : String) :
    Template.parse registry controls other source = .ok ⟨other, t.nodes⟩ := by
  rw [Template.parse] at h ⊢
  obtain ⟨nodes, hnodes, ht⟩ := Result.bind_eq_ok.mp h
  obtain rfl := Except.ok.inj ht
  refine Result.bind_eq_ok.mpr ⟨nodes, ?_, rfl⟩
  rw [Parser.run] at hnodes ⊢
  cases hread : Parser.template registry ⟨(lex controls source).tokens, _, _⟩ with
  | error err => simp [hread] at hnodes
  | ok p => simpa [hread] using hnodes

/-- A run over a context delivers the text, in at most as many steps as there are instructions. The
text is what the nodes show, one after the other, where the counts in them fit into a machine
word. -/
structure LinkedProgram.Shows (linked : LinkedProgram) (registry : Registry) (place : FilterPlace)
    (nodes : List Node) (context : Value) (text : String) : Prop where
  runs : ∀ budget, linked.program.main.instructions.size < budget →
    linked.runWithin budget context = .ok text
  shows : (∀ n ∈ nodes, n.Fits) → ∃ texts,
    List.Forall₂ (Node.Shows ⟨registry.filter?, place, linked.invocation stepBudget,
      [{ context }]⟩) nodes texts ∧
      text = texts.foldl (· ++ ·) ""

namespace Engine

variable {options : Options} {source : String} {t : Template}

/-- A source of lenient nodes compiles under every name to as many instructions. They show the nodes
over every context, as the same text under every name. -/
theorem compileAs_lenient (e : Engine) (hcheck : options.check = .ok ())
    (hparse : Template.parse e.registry options.controls anonymousName source = .ok t)
    (hlenient : ∀ n ∈ t.nodes, n.isLenient = true) :
    ∃ size, ∃ text : Value → String, ∀ name, ∃ program,
      e.compileAs name source options = .ok program ∧
      program.link e.registry = .ok ⟨program, #[]⟩ ∧ program.main.instructions.size = size ∧
      ∀ context, LinkedProgram.Shows ⟨program, #[]⟩ e.registry ⟨name, options.autoescape⟩ t.nodes
        context (text context) := by
  obtain ⟨is, hsteady, hwrites⟩ := Emission.nodesOf_writes hlenient 0
  let start (context : Value) : Machine :=
    { frames := [{ context }], autoescape := options.autoescape }
  choose final hfinal using fun context => Machine.exists_runCode hsteady (start context)
  refine ⟨is.length, fun context => (final context).output.text, fun name => ?_⟩
  have htagless (n : Node) (hn : n ∈ t.nodes) : n.IsTagless := .of_isLenient (hlenient n hn)
  obtain ⟨depth, hdepth⟩ : ∃ depth, TemplateSet.referenceBudget = depth + 1 :=
    ⟨TemplateSet.referenceBudget - 1, by decide⟩
  obtain ⟨code, u, hcode, his, hnext, hfilters⟩ := hwrites depth
    (TemplateSet.taglessEnv e.registry ⟨name, t.nodes⟩) name (Emission.entered {} name) rfl
  let program : Program :=
    { name := entryPoint, autoescape := options.autoescape, files := u.files, filters := u.filters
      tags := u.tags, main := Code.ofFragment code, macros := u.macros }
  have hmain : program.main.instructions.toList = is := (Code.ofFragment_describes code).1.trans his
  have hlink : program.link e.registry = .ok ⟨program, #[]⟩ := by
    have hnone : program.filters = #[] := hfilters
    rw [Program.link, hnone, Array.mapM_empty]
    rfl
  have hsize : program.main.instructions.size = is.length := by
    rw [← hmain, Array.length_toList]
  refine ⟨program, ?_, hlink, hsize, fun context => ⟨fun budget hbudget => ?_, fun hfits => ?_⟩⟩
  · have hload : TemplateSet.load e.registry options.controls e.templates.load name source =
        .ok (.single ⟨name, t.nodes⟩) :=
      TemplateSet.load_of_tagless (t := ⟨name, t.nodes⟩) (Template.parse_rename hparse name)
        htagless
    rw [compileAs, hcheck, hload]
    exact TemplateSet.compile_of_tagless (t := ⟨name, t.nodes⟩) _ _ htagless (hdepth ▸ hcode)
  · have hrun : (LinkedProgram.start ⟨program, #[]⟩ context).runCode ⟨program, #[]⟩
        (LinkedProgram.invocation ⟨program, #[]⟩ budget) program.main budget =
          .ok (final context) :=
      hfinal context _ _ program.main budget hmain
        (Nat.lt_of_le_of_lt (Nat.sub_le _ _) (hsize ▸ hbudget))
    rw [LinkedProgram.runWithin, hrun]
  · obtain ⟨texts, hshows⟩ := Node.exists_forall₂_shows hlenient ⟨e.registry.filter?,
      ⟨name, options.autoescape⟩, LinkedProgram.invocation ⟨program, #[]⟩ stepBudget, [{ context }]⟩
    obtain ⟨least, hleast⟩ := Emission.nodesOf_runCode (m := start context) hlink hfits hshows hcode
      List.prefix_rfl List.prefix_rfl rfl rfl
    have hfinished := hfinal context ⟨program, #[]⟩
      (LinkedProgram.invocation ⟨program, #[]⟩ stepBudget) program.main (least + is.length + 1)
      hmain (by omega)
    have hsame := Except.ok.inj ((hleast _ (by omega)).symm.trans hfinished)
    refine ⟨texts, hshows, ?_⟩
    change (final context).output.text = _
    rw [← hsame, Machine.wrote]
    exact congrArg Output.text (Output.foldl_write texts "")

/-- After every history a source of literal text and outputs of expressions without arithmetic,
filters and calls compiles and runs to the end over every context, in either escaping mode, with more
steps than it has instructions. So it is rendered over all data that are a context, whether it is
compiled or served from the cache. -/
theorem render_lenient (calls : List EngineCall) (hcheck : options.check = .ok ())
    (hparse : Template.parse (Engine.afterAll {} calls).registry options.controls anonymousName
      source = .ok t)
    (hlenient : ∀ n ∈ t.nodes, n.isLenient = true) :
    let e := Engine.afterAll {} calls
    let place : FilterPlace := ⟨anonymousName, options.autoescape⟩
    ∃ program linked, e.compile source options = .ok program ∧
      program.link e.registry = .ok linked ∧
      (∀ context, ∃ text, linked.Shows e.registry place t.nodes context text) ∧
      (program.main.instructions.size < stepBudget → ∀ (data : Data) (context : Value),
        data.toValue = .ok context → ∃ text, (e.render source data options).1 = .ok text ∧
          linked.Shows e.registry place t.nodes (options.mergeContext context) text) := by
  intro e place
  obtain ⟨size, text, hall⟩ := e.compileAs_lenient hcheck hparse hlenient
  obtain ⟨program, hcompile, hlink, hsize, hshows⟩ := hall anonymousName
  refine ⟨program, _, hcompile, hlink, fun context => ⟨_, hshows context⟩, ?_⟩
  intro hbudget data context hcontext
  refine ⟨_, ?_, hshows (options.mergeContext context)⟩
  -- the program that is served may have been compiled under another name
  have hvouched : e.CacheVouched (Engine.keptByAll {} calls ++ []) :=
    cacheVouched_fresh.afterAll calls
  obtain ⟨served, hserved, hservedLink, hservedSize, hservedShows⟩ :=
    hall (e.servedName (Engine.keptByAll {} calls ++ []) anonymousName source options)
  rw [hvouched.render_eq, renderAs, hserved]
  change e.run served data options = _
  rw [run, prepare, hservedLink, hcontext]
  exact (hservedShows _).runs stepBudget (by rwa [hservedSize, ← hsize])

set_option maxRecDepth 100000 in
/-- An output of lookups, literals and operators of every rank, between literal texts. -/
theorem render_lenient_mixed :
    let source := "a\x7b\x7b u.x[0] ~ [1, not y] in \x7b'k': z\x7d or m < 'q' \x7d\x7db"
    let options : Options := {}
    let e := Engine.afterAll {} []
    let place : FilterPlace := ⟨anonymousName, options.autoescape⟩
    options.check = .ok () ∧ ∃ t : Template,
      Template.parse e.registry options.controls anonymousName source = .ok t ∧
        t.nodes.length = 3 ∧ (∀ n ∈ t.nodes, n.isLenient = true) ∧
        ∃ program linked, e.compile source options = .ok program ∧
          program.link e.registry = .ok linked ∧
          (∀ context, ∃ text, linked.Shows e.registry place t.nodes context text) ∧
          (program.main.instructions.size < stepBudget → ∀ (data : Data) (context : Value),
            data.toValue = .ok context → ∃ text, (e.render source data options).1 = .ok text ∧
              linked.Shows e.registry place t.nodes (options.mergeContext context) text) := by
  intro source options e place
  have hcheck : options.check = .ok () := rfl
  have hfacts : (Template.parse e.registry options.controls anonymousName source).toOption.any
      (fun t => t.nodes.length == 3 && t.nodes.all Node.isLenient) = true := by decide +kernel
  cases hparse : Template.parse e.registry options.controls anonymousName source with
  | error err => simp [hparse, Except.toOption] at hfacts
  | ok t =>
    simp only [hparse, Except.toOption, Option.any_some, Bool.and_eq_true, beq_iff_eq,
      List.all_eq_true] at hfacts
    exact ⟨hcheck, t, rfl, hfacts.1, hfacts.2, render_lenient [] hcheck hparse hfacts.2⟩

end Engine

end Templating
