import Mathlib
import Templating.Engine.Basic
import Templating.Proofs.Program.Imports

/-!
# Imported macros

Macros without parents, whose blocks the importing template does not define, are called alike
wherever they are imported: the import has the same code, and a call of one of its macros yields the
same text, whatever blocks the importing template defines, extends or is emitting.
-/

namespace Templating

namespace Emission

variable {registry : Registry} {library : TemplateSet} {names imports isDefined : String → Prop}
  {name : String} {depth : Nat} {before after : EmissionState} {code : Fragment}
  {own : LinkedProgram}

/-- What a call yields with the macros of an import by themselves, it yields in every two programs
with that import, whose templates may define, extend and be emitting different blocks: with the same
arguments, outermost frame and escaping mode, and with macros that have the same numbers in both. -/
theorem imported_calls_alike
    (hlibrary : library.IsLibrary registry names imports isDefined) (hname : imports name)
    (himport : importTemplate (atDepth depth) (library.alone registry) name before =
      .ok (code, after))
    (hown : after.program.link registry = .ok own)
    (one other : Importer library registry names isDefined name depth before)
    {budget : Nat} {callee : Value} {args : List Value} {frames frames' : Frames} {mode : Bool}
    {v : Value} (hroot : frames.root.snapshot = frames'.root.snapshot)
    (hcall : own.invocation budget callee args frames mode = .ok v) :
    Fragment.instructions one.code = Fragment.instructions other.code ∧
      one.linked.invocation budget callee args frames mode = .ok v ∧
      other.linked.invocation budget callee args frames' mode = .ok v := by
  obtain ⟨hone, hcontinues⟩ := one.continues hlibrary hname himport hown
  obtain ⟨hother, hcontinues'⟩ := other.continues hlibrary hname himport hown
  have hcall' : own.invocation budget callee args frames' mode = .ok v :=
    (LinkedProgram.callValue_congr hroot).symm.trans hcall
  exact ⟨hone.trans hother.symm, hcontinues.invocation budget hcall,
    hcontinues'.invocation budget hcall'⟩

/-- A template with a macro that writes a border, which is a block, around a part and a variable. -/
def framing : TemplateSet where
  root := ⟨"macros", [.tag "macro" [.ident "framed", .ident "x"]
    [.tag "block" [.ident "border"] [.literal "-" {}] [] {},
      .tag "include" [.text "part"] [] [] {}, .output (.var "x" {}) [] {}] [] {}]⟩
  loaded := [⟨"part", [.literal "|" {}]⟩]

/-- The import of the macros. -/
def importFraming : Node := .tag "import" [.text "macros", .ident "m"] [] [] {}

/-- A template that imports the macros and extends another one, in which it defines a block. -/
def framingPage : TemplateSet where
  root := ⟨"page", [.tag "extends" [.text "base"] [] [] {}, importFraming,
    .tag "block" [.ident "title"] [.literal "t" {}] [] {}]⟩
  loaded := ⟨"base", [.tag "block" [.ident "title"] [] [] {}]⟩ :: framing.root :: framing.loaded

/-- A template that imports the macros and has no blocks. -/
def framingNote : TemplateSet where
  root := ⟨"note", [importFraming, .literal "n" {}]⟩
  loaded := framing.root :: framing.loaded

/-- The templates of the library, by their names. -/
def IsFraming (name : String) : Prop := name = "macros" ∨ name = "part"

/-- The macros are detached from a title, and the library asks for its own templates only. -/
theorem framing_isLibrary :
    framing.IsLibrary .initial IsFraming (· = "macros") (· = "title") where
  builtin _ _ n _ := n.isBuiltin_initial
  names_of_imports _ hname := .inl hname
  detached name t hname ht := by
    subst hname
    obtain rfl : framing.root = t := Option.some.inj ht
    intro args body branches span hn
    obtain ⟨-, rfl, rfl, -⟩ := Node.tag.inj (List.mem_singleton.mp hn)
    have hblock : Registry.initial.tag? "block" = some (.builtin .block) := rfl
    have hinclude : Registry.initial.tag? "include" = some (.builtin .insert) := rfl
    simp [Node.AllDetached, Node.BranchesDetached, Node.IsDetached, hblock, hinclude,
      TagArg.asIdent?]

/-- The root of a set does not hinder an import if it is not one of the templates of the library. -/
theorem framing_holds {s : TemplateSet} {resolved : Resolved} (hsize : 0 < s.loaded.length)
    (hmacros : s.get? "macros" = framing.get? "macros")
    (hpart : s.get? "part" = framing.get? "part") (hroot : ¬ IsFraming s.root.name)
    (hlayers : ∀ block, block ≠ "title" → resolved.layers block = []) :
    Surroundings.Holds { registry := .initial, set := s, resolved, including := [s.root.name] }
      framing .initial IsFraming (· = "title") where
  registry := rfl
  within := by
    refine ⟨Nat.succ_le_succ hsize, ?_, ?_⟩
    · rintro name (rfl | rfl)
      · exact hmacros
      · exact hpart
    · intro u hu
      simp only [framing, TemplateSet.templates, List.mem_cons, List.not_mem_nil, or_false] at hu
      rcases hu with rfl | rfl <;>
        simp [Node.Throughout, Node.everywhere, Node.everywhereInBranches, Node.Names, IsFraming]
  including name hname := by
    simp only [List.contains_cons, List.contains_nil, Bool.or_false, beq_eq_false_iff_ne]
    rintro rfl
    exact hroot hname
  layers := hlayers

/-- The importing sets are regular. -/
theorem framing_regular {s : TemplateSet} (h : s = framingPage ∨ s = framingNote) :
    s.Regular .initial := by
  intro t ht
  have hfits : Node.Throughout Node.Fits t.nodes ∧ t.nodes.length < 4 := by
    rcases h with rfl | rfl <;>
      simp only [framingPage, framingNote, framing, TemplateSet.templates, List.mem_cons,
        List.not_mem_nil, or_false] at ht <;>
      rcases ht with rfl | rfl | rfl | rfl <;>
      simp [Node.Throughout, Node.everywhere, Node.everywhereInBranches, Node.Fits, ArgsFit,
        ChainFits, Expr.Fits, importFraming]
  exact ⟨fun n _ => n.isBuiltin_initial, hfits.1, by
    have hsize : UInt64.size = 18446744073709551616 := rfl
    omega⟩

/-- Programs with the import of the macros, at the beginning of a template. -/
abbrev FramingImporter : Type :=
  Importer framing .initial IsFraming (· = "title") "macros" 3 {}

/-- A template imports the macros that comes, with inheritance applied, with the import first. -/
theorem exists_framingImporter {s : TemplateSet} {resolved : Resolved} {file : String}
    {rest : List (String × Node)} (hs : s = framingPage ∨ s = framingNote)
    (hresolved : s.resolve s.root = .ok resolved)
    (hbody : resolved.body = (file, importFraming) :: rest)
    (hlayers : ∀ block, block ≠ "title" → resolved.layers block = [])
    (hlinked : (do
      let p ← s.compileAt .initial true s.root.name 4
      discard <| p.link .initial) = (.ok () : Result Unit)) :
    ∃ importer : FramingImporter, importer.env.resolved = resolved := by
  have hholds : Surroundings.Holds
      { registry := .initial, set := s, resolved, including := [s.root.name] }
      framing .initial IsFraming (· = "title") := by
    rcases hs with rfl | rfl
    · exact framing_holds (by decide) rfl rfl (by simp [IsFraming, framingPage]) hlayers
    · exact framing_holds (by decide) rfl rfl (by simp [IsFraming, framingNote]) hlayers
  obtain ⟨p, hcompile, hlinked⟩ := Result.bind_eq_ok.mp hlinked
  obtain ⟨linked, hlink, -⟩ := Result.bind_eq_ok.mp hlinked
  obtain ⟨importer, himporter, -⟩ := TemplateSet.exists_importer (framing_regular hs) rfl hresolved
    hbody hholds (Nat.lt_succ_self 3) hcompile hlink
  exact ⟨importer, himporter⟩

set_option maxRecDepth 100000 in
/-- The template with a title imports the macros. -/
theorem exists_framingPage_importer :
    ∃ importer : FramingImporter, importer.env.resolved.layers "title" ≠ [] := by
  have hresolved : framingPage.resolve framingPage.root = .ok {
      body := [("page", importFraming), ("base", .tag "block" [.ident "title"] [] [] {})]
      levels := [("page", [⟨"title", 0, [.literal "t" {}]⟩]), ("base", [⟨"title", 0, []⟩])] } := by
    cbv
  obtain ⟨importer, himporter⟩ := exists_framingImporter (.inl rfl) hresolved rfl
    (fun block hblock => by simp [Resolved.layers, Ne.symm hblock])
    (Result.eq_ok_of_toOption (by decide +kernel))
  refine ⟨importer, ?_⟩
  rw [himporter]
  simp [Resolved.layers]

set_option maxRecDepth 100000 in
/-- The template without blocks imports the macros. -/
theorem exists_framingNote_importer :
    ∃ importer : FramingImporter, importer.env.resolved.layers "title" = [] := by
  have hresolved : framingNote.resolve framingNote.root = .ok {
      body := [("note", importFraming), ("note", .literal "n" {})]
      levels := [("note", [])] } := by
    cbv
  obtain ⟨importer, himporter⟩ := exists_framingImporter (.inr rfl) hresolved rfl
    (fun block _ => rfl) (Result.eq_ok_of_toOption (by decide +kernel))
  refine ⟨importer, ?_⟩
  rw [himporter]
  rfl

set_option maxRecDepth 100000 in
/-- The macro writes the same in a template with a title and in one without. -/
theorem imported_calls_alike_framed :
    ∃ (one other : FramingImporter) (v : Value),
      one.env.resolved.layers "title" ≠ [] ∧ other.env.resolved.layers "title" = [] ∧
        Output.valueText v true = "|1" ∧
        one.linked.invocation 100 (.callable 0 "framed") [.int 1] [{}] true = .ok v ∧
        other.linked.invocation 100 (.callable 0 "framed") [.int 1] [{}] true = .ok v := by
  obtain ⟨one, hone⟩ := exists_framingPage_importer
  obtain ⟨other, hother⟩ := exists_framingNote_importer
  have hcall : (do
      let r ← importTemplate (atDepth 3) (framing.alone .initial) "macros" {}
      let own ← r.2.program.link .initial
      let v ← own.invocation 100 (.callable 0 "framed") [.int 1] [{}] true
      return Output.valueText v true) = (.ok "|1" : Result String) :=
    Result.eq_ok_of_toOption (by decide +kernel)
  obtain ⟨⟨code, after⟩, himport, hcall⟩ := Result.bind_eq_ok.mp hcall
  obtain ⟨own, hown, hcall⟩ := Result.bind_eq_ok.mp hcall
  obtain ⟨v, hcall, htext⟩ := Result.bind_eq_ok.mp hcall
  obtain ⟨-, hcall', hcall''⟩ :=
    imported_calls_alike framing_isLibrary rfl himport hown one other rfl hcall
  exact ⟨one, other, v, hone, hother, Except.ok.inj htext, hcall', hcall''⟩

end Emission

namespace Engine

set_option maxRecDepth 100000 in
/-- The condition on blocks cannot be left out: the block of an imported macro is filled with the
block of that name of the template that imports it. -/
theorem not_forall_import_alike :
    ¬ ∀ (source : String) (context : Data),
      let e := Engine.addTemplate {} "macros" source
      let call := "\x7b% import \"macros\" as m %\x7d\x7b\x7b m.f() \x7d\x7d"
      (e.render ("\x7b% block a %\x7dx\x7b% endblock %\x7d" ++ call) context e.defaults).1 =
        (e.render call context e.defaults).1.map ("x" ++ ·) := by
  intro h
  have htexts := congrArg Except.toOption (h
    "\x7b% macro f() %\x7d\x7b% block a %\x7d\x7b% endblock %\x7d\x7b% endmacro %\x7d" (.map []))
  revert htexts
  decide +kernel

end Engine

end Templating
