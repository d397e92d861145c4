import Templating.Proofs.Emission.Importing
import Templating.Proofs.Emission.TagCode
import Templating.Proofs.Emission.Templates
import Templating.Proofs.Machine.Continuation
import Templating.Proofs.Machine.ExpressionCode
import Templating.Proofs.Program.Relocation

/-!
# Programs that import macros

A library of templates can be imported from by itself, into surroundings without blocks. Macros that
are detached from blocks are emitted there as they are in every template that imports them, so that
a call of one of them, if it needs no macros but those known with the import, yields in every
importing program what it yields by itself.
-/

namespace Templating

/-- What an emission has made so far, as a program without main code. -/
def EmissionState.program (t : EmissionState) : Program where
  name := ""
  autoescape := true
  files := t.files
  filters := t.filters
  macros := t.macros

/-- A program that an emission may end with, after what it has made so far. -/
structure EmissionState.LeadsTo (t : EmissionState) (p : Program) : Prop where
  files : t.files.toList <+: p.files.toList
  filters : t.filters.toList <+: p.filters.toList
  macros : t.macros.toList <+: p.macros.toList

/-- A program goes on where one emission has led to if another one with the same filters and macros
leads to it. -/
theorem LinkedProgram.continues_of_shares {C : Value → Prop} {s t : EmissionState}
    {registry : Registry} {own linked : LinkedProgram} (h : s.Shares C t)
    (hown : s.program.link registry = .ok own) (hlink : linked.program.link registry = .ok linked)
    (hleads : t.LeadsTo linked.program) : own.Continues linked where
  filters {i f} hf := by
    obtain ⟨name, hname, hfilter⟩ := Program.exists_filter_name hown hf
    have hname : t.filters[i]? = some name := by
      rw [h.filters]
      exact hname
    obtain ⟨f', hfilter', hf'⟩ :=
      (Program.link_eq_ok hlink).2 (getElem?_of_prefix_toList hleads.filters hname)
    obtain rfl := Option.some.inj (hfilter.symm.trans hfilter')
    exact hf'
  macros {id d} hd := by
    obtain ⟨hprogram, -⟩ := Program.link_eq_ok hown
    rw [hprogram] at hd ⊢
    have hrel := forall₂_getElem? h.macros id
    rw [Array.getElem?_toList, Array.getElem?_toList, show s.macros[id]? = some d from hd] at hrel
    generalize he : t.macros[id]? = e? at hrel
    cases hrel with
    | @some _ e hmoves =>
      have hgrow : (s.tables t).Grow ⟨s.program.files, linked.program.files⟩ :=
        ⟨List.prefix_rfl, hleads.files⟩
      exact ⟨e, getElem?_of_prefix_toList hleads.macros he, (hmoves.mono hgrow).resembles⟩

/-- A set of templates that use built-in tags only, and some of which can be imported from: their
macros are detached from the blocks that may be defined elsewhere, and import from such templates
only. These have certain names, as all templates have that are asked for. -/
structure TemplateSet.IsLibrary (library : TemplateSet) (registry : Registry)
    (names imports isDefined : String → Prop) : Prop where
  builtin : ∀ t ∈ library.templates, Node.Throughout (Node.IsBuiltin registry) t.nodes
  names_of_imports : ∀ name, imports name → names name
  detached : ∀ name t, imports name → library.get? name = some t →
    Node.MacrosDetached registry isDefined imports t.nodes

/-- The surroundings of what is imported from a library by itself. -/
def TemplateSet.alone (library : TemplateSet) (registry : Registry) : Emission.Surroundings where
  registry
  set := library
  resolved := default

namespace Emission

variable {registry : Registry} {library : TemplateSet} {names imports isDefined : String → Prop}
  {env : Surroundings} {name : String} {depth : Nat}

/-- Surroundings that hold a library: its templates have their names there and are not being
included, and no other blocks are defined than such that may be. -/
structure Surroundings.Holds (env : Surroundings) (library : TemplateSet) (registry : Registry)
    (names isDefined : String → Prop) : Prop where
  registry : env.registry = registry
  within : library.Within names env.set
  including : ∀ name, names name → env.including.contains name = false
  layers : ∀ block, ¬ isDefined block → env.resolved.layers block = []

/-- A template of a library is imported by itself as it is into surroundings that hold the library,
whatever blocks they define and are emitting. -/
theorem importTemplate_alone {extra : Nat} {s t s' : EmissionState} {code : Fragment}
    (hlibrary : library.IsLibrary registry names imports isDefined)
    (hholds : env.Holds library registry names isDefined) (hname : imports name)
    (hst : s.Shares (fun _ => True) t)
    (h : importTemplate (atDepth depth) (library.alone registry) name s = .ok (code, s')) :
    ∃ code' t', importTemplate (atDepth (depth + extra)) env name t = .ok (code', t') ∧
      Fragment.instructions code' = Fragment.instructions code ∧ s'.Shares (fun _ => True) t' := by
  obtain ⟨rfl, hwithin, hincluding, hlayers⟩ := hholds
  let bare : Surroundings := { env with resolved := default, blocks := [] }
  have hmoves : (library.alone env.registry).Moves names bare :=
    ⟨rfl, rfl, rfl, fun name hname => hincluding name hname, hwithin⟩
  have hportable : (library.alone env.registry).Portable (fun _ => True) names := by
    refine ⟨fun t ht n hn => ?_, fun block layer hlayer => absurd hlayer List.not_mem_nil⟩
    exact ⟨hlibrary.builtin t ht n hn, n.loads_of_forall fun _ => trivial, hwithin.names t ht n hn⟩
  have hdiffer : env.DifferInBlocks isDefined imports bare := by
    refine ⟨rfl, rfl, rfl, fun block hblock => ⟨hlayers block hblock, rfl⟩, ?_⟩
    intro name t hname hget
    rw [hwithin.get? name (hlibrary.names_of_imports name hname)] at hget
    exact hlibrary.detached name t hname hget
  rw [importTemplate_detached (atDepth_detaches isDefined imports (depth + extra)) hdiffer hname]
  exact importTemplate_shares
    (atDepth_moves ⟨trivial, fun _ => trivial, fun _ => trivial⟩ depth extra) hmoves hportable
    (hlibrary.names_of_imports name hname) hst h

/-- A program with the import of a template from a library: what its emission had made before and
has made after the import, and the surroundings it was in. What was made before has the same filters
and macros for all importing programs that are compared. -/
structure Importer (library : TemplateSet) (registry : Registry) (names isDefined : String → Prop)
    (name : String) (depth : Nat) (before : EmissionState) where
  env : Surroundings
  extra : Nat
  start : EmissionState
  finish : EmissionState
  code : Fragment
  linked : LinkedProgram
  holds : env.Holds library registry names isDefined
  shares : before.Shares (fun _ => True) start
  imports : importTemplate (atDepth (depth + extra)) env name start = .ok (code, finish)
  leadsTo : finish.LeadsTo linked.program
  link : linked.program.link registry = .ok linked

/-- An importing program has the code of the import by itself, and goes on where that ends. -/
theorem Importer.continues {before after : EmissionState} {code : Fragment} {own : LinkedProgram}
    (hlibrary : library.IsLibrary registry names imports isDefined) (hname : imports name)
    (h : importTemplate (atDepth depth) (library.alone registry) name before = .ok (code, after))
    (hown : after.program.link registry = .ok own)
    (importer : Importer library registry names isDefined name depth before) :
    Fragment.instructions importer.code = Fragment.instructions code ∧
      own.Continues importer.linked := by
  obtain ⟨code', t', himport, hinstructions, hshares⟩ :=
    importTemplate_alone hlibrary importer.holds hname importer.shares h
  obtain ⟨rfl, rfl⟩ := Prod.mk.inj (Except.ok.inj (importer.imports.symm.trans himport))
  exact ⟨hinstructions,
    LinkedProgram.continues_of_shares hshares hown importer.link importer.leadsTo⟩

end Emission

namespace TemplateSet

open Emission

variable {s library : TemplateSet} {registry : Registry} {names isDefined : String → Prop}

/-- A template that, with inheritance applied, begins with an import compiles to an importing
program, to which nothing was known before. -/
theorem exists_importer {resolved : Resolved} {file name alias_ own : String} {span : Span}
    {rest : List (String × Node)} {autoescape : Bool} {depth bound : Nat} {p : Program}
    {linked : LinkedProgram} (hregular : s.Regular registry)
    (htag : registry.tag? "import" = some (.builtin .importMacros))
    (hresolved : s.resolve s.root = .ok resolved)
    (hbody : resolved.body = (file, .tag "import" [.text name, .ident alias_] [] [] span) :: rest)
    (hholds : Surroundings.Holds { registry, set := s, resolved, including := [s.root.name] }
      library registry names isDefined)
    (hbound : depth < bound) (h : s.compileAt registry autoescape own bound = .ok p)
    (hlink : p.link registry = .ok linked) :
    ∃ importer : Importer library registry names isDefined name depth {},
      importer.env.resolved = resolved ∧ importer.linked = linked := by
  obtain ⟨extra, rfl⟩ := Nat.exists_eq_add_of_lt hbound
  obtain ⟨rfl, -⟩ := Program.link_eq_ok hlink
  obtain ⟨⟨main, t⟩, hemit, h⟩ := Result.bind_eq_ok.mp h
  obtain hp := Except.ok.inj h
  simp only [emitRoot, inFile_eq_ok, bind_eq_ok] at hemit
  obtain ⟨u, ⟨resolved', v, hresolve, hmain⟩, rfl⟩ := hemit
  obtain ⟨hsame, rfl⟩ := lift_eq_ok.mp hresolve
  obtain rfl := Except.ok.inj (hresolved.symm.trans hsame)
  have hall : ∀ t ∈ s.templates, Emission.Regular registry t.nodes := fun t ht =>
    regular_nodes (hregular t ht)
  have henv : Surroundings.Sound { registry, set := s, resolved, including := [s.root.name] } :=
    ⟨hregular, fun block => throughout_layers hall hresolved List.mem_cons_self block⟩
  have hrows := throughout_body hall hresolved List.mem_cons_self
  rw [hbody] at hmain hrows
  simp only [nodesOf, atDepth, nodes, bind_eq_ok, pure_eq_ok, inFile_eq_ok] at hmain
  obtain ⟨_, _, ⟨w, ⟨_, _, hnode, _, _, ⟨rfl, rfl⟩, rfl, rfl⟩, rfl⟩, more, _, hmore, rfl, rfl⟩ :=
    hmain
  obtain ⟨tag, tags, htag', hcode⟩ := exists_tagCode hnode fun tag htag' => by
    simp [htag] at htag'
  obtain rfl : BuiltinTag.importMacros = tag := by simpa [htag] using htag'
  cases hcode with
  | @importMacros _ _ x _ _ _ _ hargs himport hstore =>
    simp only [List.cons.injEq, TagArg.text.injEq, TagArg.ident.injEq, and_true] at hargs
    obtain ⟨rfl, rfl⟩ := hargs
    have hlater := (op_laid hstore trivial).advances
    have hlast := (nodesOf_emitted (atDepth_sound (depth + extra + 1)) henv
      (fun row hrow => hrows row (List.mem_cons_of_mem _ hrow)) hmore).advances
    refine ⟨⟨_, extra, _, x, _, linked, hholds, ?_, himport, ?_, hlink⟩, rfl, rfl⟩
    · exact ⟨rfl, .nil⟩
    · rw [← hp]
      exact ⟨hlater.files.trans hlast.files, hlater.filters.trans hlast.filters,
        hlater.macros.trans hlast.macros⟩

end TemplateSet

end Templating
