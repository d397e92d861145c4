import Templating.Proofs.Engine.Transparency
import Templating.Proofs.Program.LiteralText

/-!
# Rendering literal text, comments and raw blocks

A source in which no output point and no tag but raw blocks stands renders to its literal text and
the contents of its raw blocks, with any plain delimiters, in any engine and over any context.
-/

namespace Templating

namespace Engine

variable {options : Options} {passages : List Passage}

/-- The source of literal text, comments and raw blocks. -/
def verbatimSource (options : Options) (passages : List Passage) : String :=
  String.ofList (Passage.allWritten options.controls passages)

/-- The source compiles, under every name and whatever tags, filters and templates there are, to a
program that applies no filters and writes texts, at most as many as the source has characters. -/
theorem compileAs_verbatim (e : Engine) (name : String) (hplain : options.controls.Plain)
    (hclear : Passage.Clear options.controls passages) :
    ∃ program texts, e.compileAs name (verbatimSource options passages) options = .ok program ∧
      program.filters = #[] ∧ program.main.instructions.toList = writing texts ∧
      texts.length ≤ (verbatimSource options passages).length ∧
      texts.flatMap String.toList = Passage.allShown passages := by
  have hshows : Lexer.Shows options.controls (verbatimSource options passages).toList
      (Passage.allShown passages) := by
    rw [verbatimSource, String.toList_ofList]
    have hshows := Lexer.shows_allWritten hplain hclear (Lexer.silent_nil _)
    rwa [List.nil_append, List.nil_append] at hshows
  obtain ⟨parts, hparts, hlength, hparse⟩ :=
    Template.parse_of_shows e.registry hplain.solid name hshows
  have hload : TemplateSet.load e.registry options.controls e.templates.load name
      (verbatimSource options passages) = .ok (.single ⟨name, literals parts⟩) :=
    TemplateSet.load_of_tagless (t := ⟨name, literals parts⟩) hparse (tagless_literals parts)
  obtain ⟨program, hcompile, hfilters, hmain⟩ :=
    TemplateSet.compile_literals e.registry options.autoescape entryPoint name parts
  refine ⟨program, parts.map Prod.fst, ?_, hfilters, hmain, ?_, ?_⟩
  · have hcheck : options.check = .ok () := hplain.check
    rw [compileAs, hcheck, hload]
    exact hcompile
  · rwa [List.length_map]
  · exact hparts

/-- After every history a source of literal text, comments and raw blocks with plain delimiters
compiles to a program that writes the literal text and the contents of the raw blocks in order, over
every context, in a run with more steps than the source has characters; so it is rendered as this
text, whether it is compiled or served from the cache. Rendering fails only where the data are not a
context. -/
theorem render_verbatim (calls : List EngineCall) (hplain : options.controls.Plain)
    (hclear : Passage.Clear options.controls passages) :
    let e := Engine.afterAll {} calls
    let source := verbatimSource options passages
    let shown := String.ofList (Passage.allShown passages)
    (∃ program linked, e.compile source options = .ok program ∧
      program.link e.registry = .ok linked ∧
      ∀ context budget, source.length < budget → linked.runWithin budget context = .ok shown) ∧
    (source.length < stepBudget → ∀ context : Data,
      (e.render source context options).1 = context.toValue.map fun _ => shown) := by
  intro e source shown
  have hlinked (program : Program) (hfilters : program.filters = #[]) :
      program.link e.registry = .ok ⟨program, #[]⟩ := by
    rw [Program.link, hfilters, Array.mapM_empty]
    rfl
  constructor
  · obtain ⟨program, texts, hcompile, hfilters, hmain, hlength, hshown⟩ :=
      e.compileAs_verbatim anonymousName hplain hclear
    refine ⟨program, ⟨program, #[]⟩, hcompile, hlinked program hfilters, ?_⟩
    intro context budget hbudget
    rw [LinkedProgram.runWithin_writing hmain (Nat.lt_of_le_of_lt hlength hbudget), hshown]
  · intro hsize context
    have hvouched : e.CacheVouched (Engine.keptByAll {} calls ++ []) :=
      cacheVouched_fresh.afterAll calls
    rw [hvouched.render_eq]
    generalize e.servedName _ anonymousName source options = name
    obtain ⟨program, texts, hcompile, hfilters, hmain, hlength, hshown⟩ :=
      e.compileAs_verbatim name hplain hclear
    have hrun (value : Value) : LinkedProgram.run ⟨program, #[]⟩ value = .ok shown := by
      rw [LinkedProgram.run, LinkedProgram.runWithin_writing hmain
        (Nat.lt_of_le_of_lt hlength hsize), hshown]
    rw [renderAs, hcompile]
    change e.run program context options = _
    rw [run, prepare, hlinked program hfilters]
    cases context.toValue with
    | error err => rfl
    | ok value => exact hrun (options.mergeContext value)

/-- A comment between literal texts, and a raw block with an output point in it. -/
theorem render_verbatim_marked :
    ((({} : Engine).afterAll []).render
      "a \x7b b\x7b# c #\x7d\x7b% raw %\x7d\x7b\x7b d \x7d\x7d\x7b% endraw %\x7de" (.map []) {}).1 =
        .ok "a \x7b b\x7b\x7b d \x7d\x7de" := by
  let passages : List Passage := [.literal "a \x7b b".toList, .comment "c".toList,
    .raw "\x7b\x7b d \x7d\x7d".toList, .literal "e".toList]
  have hplain : Controls.Plain {} := by
    refine ⟨rfl, fun m c hc => ?_⟩
    have hall : ∀ m, (Controls.opening {} m ++ Controls.closing {} m).all
        (fun c => c != '-' && !Text.isBlank c) = true := by decide
    simpa using List.all_eq_true.mp (hall m) c hc
  have hclear : Passage.Clear {} passages := by decide
  have hsize : (verbatimSource {} passages).length < stepBudget := by decide
  have hrender := @render_verbatim {} passages [] hplain hclear
  exact hrender.2 hsize (.map [])

end Engine

end Templating
