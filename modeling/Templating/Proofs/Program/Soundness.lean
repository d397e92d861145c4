import Templating.Proofs.Emission.Templates
import Templating.Proofs.Machine.Safety
import Templating.Proofs.Program.LineTable

/-!
# Compiled programs are well formed and run in balance

What a set of templates with built-in tags compiles to refers only to what is there, and no run of
it pops what is not there or closes what is not open. The first part reads the tables off the state
in which emission ended; the second follows a run through the main code and through the macros that
it calls, each of which is structured code of its own.
-/

namespace Templating

/-- Jumps stay in the code or go right behind it, and what the code refers to is in tables of the
given sizes. -/
structure Code.WellFormed (c : Code) (filters macros files : Nat) : Prop where
  jumps : ∀ i ∈ c.instructions, i.JumpsWithin 0 c.size
  refers : ∀ i ∈ c.instructions, i.RefersWithin filters macros
  places : ∀ run ∈ c.lines, run.file < files

/-- A program lists each filter once, and refers to nothing outside of its tables. -/
structure Program.WellFormed (p : Program) : Prop where
  filters : p.filters.toList.Nodup
  main : p.main.WellFormed p.filters.size p.macros.size p.files.size
  macros : ∀ decl ∈ p.macros, decl.code.WellFormed p.filters.size p.macros.size p.files.size
  siblings : ∀ decl ∈ p.macros, ∀ sibling ∈ decl.siblings, sibling.2 < p.macros.size

/-- Structured code whose pieces are within the tables is well formed. -/
theorem Code.wellFormed_ofFragment {code : Fragment} {filters macros files : Nat}
    (hwithin : code.Within filters macros files)
    (hstructured : Structured 0 code.instructions 0 0) :
    (Code.ofFragment code).WellFormed filters macros files := by
  obtain ⟨hinstructions, hlines⟩ := Code.ofFragment_describes code
  refine ⟨fun i hi => ?_, fun i hi => ?_, fun run hrun => ?_⟩
  · rw [← Array.mem_toList_iff, hinstructions] at hi
    have hjumps := hstructured.jumpsWithin i hi
    rwa [Fragment.length_instructions, Nat.zero_add, ← Code.size_ofFragment] at hjumps
  · rw [← Array.mem_toList_iff, hinstructions] at hi
    obtain ⟨p, hp, rfl⟩ := List.mem_map.mp hi
    exact (hwithin p hp).2
  · obtain ⟨p, hp, hplace⟩ := List.mem_map.mp (hlines.mem_of_mem hrun)
    rw [← (Prod.mk.inj hplace).1]
    exact (hwithin p hp).1

/-- A program whose main code and tables are what emission ended with is well formed. -/
theorem Program.wellFormed_of_sound {p : Program} {main : Fragment} {t : EmissionState}
    (hmain : p.main = Code.ofFragment main) (hfiles : p.files = t.files)
    (hfilters : p.filters = t.filters) (hmacros : p.macros = t.macros) (hsound : t.Sound)
    (hwithin : main.Within t.filters.size t.macros.size t.files.size)
    (hstructured : Structured 0 main.instructions 0 0) : p.WellFormed := by
  refine ⟨hfilters ▸ hsound.filters, ?_, fun decl hdecl => ?_, fun decl hdecl => ?_⟩
  · rw [hmain, hfiles, hfilters, hmacros]
    exact Code.wellFormed_ofFragment hwithin hstructured
  · rw [hmacros] at hdecl
    obtain ⟨body, hbody, hbodyWithin, hbodyStructured⟩ := (hsound.macros decl hdecl).code
    rw [hbody, hfiles, hfilters, hmacros]
    exact Code.wellFormed_ofFragment hbodyWithin hbodyStructured
  · rw [hmacros] at hdecl ⊢
    exact (hsound.macros decl hdecl).siblings

/-- Code put together from a piece has its instructions from the first position on. -/
theorem Code.holds_ofFragment (f : Fragment) : (Code.ofFragment f).Holds 0 f.instructions := by
  intro k i hi
  rw [Nat.zero_add, Code.getElem?_ofFragment]
  simpa [Fragment.instructions] using hi

namespace LinkedProgram

open Machine (Traced Setting)

/-- The states that a run of a program over a context gets to, in its main code and in the macros
that it calls, with the levels that further calls may nest, the code, and the number of frames that
the code was entered with. -/
inductive Visits (linked : LinkedProgram) (budget : Nat) (context : Value) :
    Nat → Code → Nat → Traced → Prop
  | start : Visits linked budget context maxCallDepth linked.program.main 1
    ⟨linked.start context, []⟩
  | step {level base : Nat} {code : Code} {t t' : Traced} :
    Visits linked budget context level code base t →
      t.Steps ⟨linked, linked.callValue (linked.enter budget level), code⟩ t' →
        Visits linked budget context level code base t'
  | call {level base args id : Nat} {code : Code} {t : Traced} {name : String} {decl : MacroDecl} :
    Visits linked budget context (level + 1) code base t →
      t.machine.fetch? code = some (.call args) →
      (t.machine.popMany args).2.pop.1 = .callable id name →
      linked.program.macros[id]? = some decl →
      (t.machine.popMany args).1.length ≤ decl.params.length →
        Visits linked budget context level decl.code
          (decl.frames (t.machine.popMany args).1 t.machine.frames).length
          ⟨{ frames := decl.frames (t.machine.popMany args).1 t.machine.frames
             autoescape := t.machine.autoescape }, []⟩

/-- A machine behind the last instruction is in balance if nothing is left open. -/
theorem balanced_of_ended {code : Code} {base : Nat} {t : Traced}
    (hfetch : t.machine.fetch? code = none) (hframes : t.machine.frames.length = base)
    (hpushers : t.pushers = []) (hstack : t.machine.stack = []) (hmodes : t.machine.modes = [])
    (hcaptures : t.machine.output.captures = []) : t.Balanced code base := by
  refine ⟨?_, fun i hi => ?_, fun _ => ⟨hstack, hmodes, hcaptures, hpushers⟩⟩
  · rw [hpushers, hframes, List.length_nil, Nat.add_zero]
  · rw [hfetch] at hi
    exact absurd hi (Option.some_ne_none i).symm

/-- What goes back along steps holds of a machine that enters structured code with frames of its
caller only, if it holds of every machine in balance that has come to the end of the code. -/
theorem hereditary_of_structured {setting : Setting} {code : Fragment}
    (hcode : setting.code = Code.ofFragment code) (hstructured : Structured 0 code.instructions 0 0)
    {m : Machine} (hpc : m.pc = 0) (hstack : m.stack = []) (hframes : 0 < m.frames.length)
    (hmodes : m.modes = []) (hcaptures : m.output.captures = []) {P : Traced → Prop}
    (hP : Traced.Hereditary setting m.frames.length P)
    (hended : ∀ t : Traced, t.Balanced setting.code m.frames.length →
      t.machine.fetch? setting.code = none → P t) : P ⟨m, []⟩ := by
  have hleads : Traced.Leads setting m.frames.length 0 (0 + code.instructions.length) 0 0 :=
    Traced.leads_of_structured hstructured (hcode ▸ Code.holds_ofFragment code)
  have hat : Traced.At ⟨m, []⟩ 0 0 [] := ⟨hpc, [], hstack, rfl⟩
  refine hleads hP hat ⟨hframes, rfl⟩ fun t' hat' hkeeps => ?_
  have hfetch : t'.machine.fetch? setting.code = none := by
    rw [Machine.fetch?, hcode, hat'.pc, Nat.zero_add, Code.getElem?_ofFragment,
      Fragment.length_instructions, List.getElem?_eq_none (Nat.le_refl _), Option.map_none]
  have hlength : t'.machine.frames.length = m.frames.length + t'.pushers.length := hkeeps.framed rfl
  rw [hkeeps.pushers] at hlength
  obtain ⟨top, hstack', htop⟩ := hat'.stack
  obtain rfl := List.eq_nil_of_length_eq_zero htop
  refine hended t' ?_ hfetch
  exact balanced_of_ended hfetch hlength hkeeps.pushers hstack' (hkeeps.modes.trans hmodes)
    (List.eq_nil_of_length_eq_zero (by rw [hkeeps.captures, hcaptures, List.length_nil]))

/-- A machine that enters structured code with frames of its caller only is safe for ever. -/
theorem safe_of_structured {setting : Setting} {code : Fragment}
    (hcode : setting.code = Code.ofFragment code) (hstructured : Structured 0 code.instructions 0 0)
    {m : Machine} (hpc : m.pc = 0) (hstack : m.stack = []) (hframes : 0 < m.frames.length)
    (hmodes : m.modes = []) (hcaptures : m.output.captures = []) (steps : Nat) :
    Traced.Safe setting m.frames.length steps ⟨m, []⟩ := by
  refine hereditary_of_structured hcode hstructured hpc hstack hframes hmodes hcaptures
    Traced.hereditary_safe fun t hbalanced hfetch => ?_
  exact Traced.Safe.pred
    ⟨hbalanced, fun _ hstep => absurd hstep (Traced.not_steps_of_fetch?_eq_none hfetch)⟩

/-- The body of a macro is entered with frames. -/
theorem length_frames_pos (decl : MacroDecl) (args : List Value) (caller : Frames) :
    0 < (decl.frames args caller).length := Nat.succ_pos _

/-- Every state that a run of structured code gets to is safe for ever. -/
theorem safe_of_visits {linked : LinkedProgram} {main : Fragment}
    (hmain : linked.program.main = Code.ofFragment main)
    (hstructured : Structured 0 main.instructions 0 0) {filters macros files : Nat}
    (hmacros : ∀ decl ∈ linked.program.macros, decl.Sound filters macros files)
    {budget level base : Nat} {context : Value} {code : Code} {t : Traced}
    (h : linked.Visits budget context level code base t) (steps : Nat) :
    t.Safe ⟨linked, linked.callValue (linked.enter budget level), code⟩ base steps := by
  induction h generalizing steps with
  | start =>
    exact safe_of_structured (m := linked.start context) hmain hstructured rfl rfl Nat.one_pos rfl
      rfl steps
  | step _ hstep ih => exact (ih (steps + 1)).2 _ hstep
  | @call _ _ args _ _ t _ decl _ _ _ hdecl _ _ =>
    obtain ⟨body, hcode, _, hbody⟩ := (hmacros decl (Array.mem_of_getElem? hdecl)).code
    have hframes := length_frames_pos decl (t.machine.popMany args).1 t.machine.frames
    exact safe_of_structured
      (m := ⟨0, [], decl.frames (t.machine.popMany args).1 t.machine.frames, {},
        t.machine.autoescape, []⟩) hcode hbody rfl rfl hframes rfl rfl steps

/-- A run that succeeds gets to its last state, where no instruction is left. -/
theorem Visits.exists_last {linked : LinkedProgram} {budget level base : Nat} {context : Value}
    {code : Code} {t : Traced} {m : Machine} (h : linked.Visits budget context level code base t)
    {steps : Nat}
    (hrun : t.machine.runCode linked (linked.callValue (linked.enter budget level)) code steps =
      .ok m) :
    ∃ pushers, linked.Visits budget context level code base ⟨m, pushers⟩ ∧
      m.fetch? code = none := by
  induction steps generalizing t with
  | zero => simp [Machine.runCode, fail] at hrun
  | succ steps ih =>
    rw [Machine.runCode] at hrun
    cases hfetch : t.machine.fetch? code with
    | none =>
      simp only [hfetch] at hrun
      obtain rfl := Except.ok.inj hrun
      exact ⟨t.pushers, h, hfetch⟩
    | some i =>
      simp only [hfetch] at hrun
      cases hadvance :
          t.machine.advance linked (linked.callValue (linked.enter budget level)) code i with
      | error e => simp [hadvance] at hrun
      | ok m' =>
        simp only [hadvance] at hrun
        exact ih (h.step ⟨i, m', hfetch, hadvance, rfl⟩) hrun

end LinkedProgram

/-- A set of templates with built-in tags compiles to a well-formed program. Whatever the program is
linked with and run over, every state that its main code and its macros get to is in balance, and a
run that succeeds comes to an end with nothing left on the stack, nothing open and the frame that it
started with. -/
theorem TemplateSet.compileAt_balanced {s : TemplateSet} {registry : Registry} {autoescape : Bool}
    {name : String} {depth : Nat} {p : Program} (hregular : s.Regular registry)
    (h : s.compileAt registry autoescape name depth = .ok p) :
    p.WellFormed ∧
      ∀ linked : LinkedProgram, linked.program = p → ∀ (budget : Nat) (context : Value),
        (∀ {level base : Nat} {code : Code} {t : Machine.Traced},
          linked.Visits budget context level code base t → t.Balanced code base) ∧
        ∀ {m : Machine},
          (linked.start context).runCode linked (linked.invocation budget) p.main budget = .ok m →
            m.stack = [] ∧ m.modes = [] ∧ m.output.captures = [] ∧ m.frames.length = 1 := by
  obtain ⟨main, t, hmain, hfiles, hfilters, hmacros, hsound, hwithin, hstructured⟩ :=
    compileAt_eq_ok hregular h
  refine ⟨Program.wellFormed_of_sound hmain hfiles hfilters hmacros hsound hwithin hstructured,
    fun linked hlinked budget context => ?_⟩
  have hbalanced : ∀ {level base : Nat} {code : Code} {t : Machine.Traced},
      linked.Visits budget context level code base t → t.Balanced code base := fun hvisits =>
    (LinkedProgram.safe_of_visits (hlinked ▸ hmain) hstructured
      (by rw [hlinked, hmacros]; exact hsound.macros) hvisits 1).1
  refine ⟨hbalanced, fun {m} hrun => ?_⟩
  rw [← hlinked] at hrun
  obtain ⟨pushers, hvisits, hfetch⟩ := LinkedProgram.Visits.exists_last .start hrun
  have hlast := hbalanced hvisits
  obtain ⟨hstack, hmodes, hcaptures, hpushers⟩ := hlast.ended hfetch
  have hframes : m.frames.length = 1 + pushers.length := hlast.frames
  rw [show pushers = [] from hpushers] at hframes
  exact ⟨hstack, hmodes, hcaptures, hframes⟩

set_option maxRecDepth 100000 in
/-- A loop with an `else` branch is compiled by the initial registry, and runs in balance. -/
theorem TemplateSet.compileAt_balanced_of_loop :
    let nodes : List Node :=
      [.tag "for" [.ident "x", .expr (.var "xs" {})] [.output (.var "x" {}) [] {}]
        [.mk "else" [] [.literal "none" {}] {}] {}]
    let s : TemplateSet := ⟨⟨"t", nodes⟩, []⟩
    s.Regular .initial ∧ ∃ p, s.compile .initial true "t" = .ok p ∧ p.WellFormed ∧
      ∀ (budget : Nat) (context : Value) (t : Machine.Traced),
        LinkedProgram.Visits ⟨p, #[]⟩ budget context maxCallDepth p.main 1 t →
          t.Balanced p.main 1 := by
  intro nodes s
  have hregular : s.Regular .initial := by
    intro t ht
    obtain rfl := List.mem_singleton.mp ht
    refine ⟨fun n hn => ?_, fun n hn => ?_, by decide⟩
    · cases n with
      | tag name =>
        intro tag htag
        obtain ⟨_, hbuiltin, _⟩ := Registry.tag?_initial htag
        exact Tag.noConfusion hbuiltin
      | _ => trivial
    · simp only [s, nodes, Node.everywhere, Node.everywhereInBranches, List.append_nil,
        List.cons_append, List.nil_append, List.mem_cons, List.not_mem_nil, or_false] at hn
      rcases hn with rfl | rfl | rfl
      · simp [Node.Fits, Emission.ArgsFit, Branch.args, Expr.Fits]
      · simp [Node.Fits, Emission.ChainFits, Expr.Fits]
      · trivial
  have hok : (s.compile .initial true "t").isOk = true := by decide +kernel
  cases h : s.compile .initial true "t" with
  | error e =>
    rw [h] at hok
    exact absurd hok (by simp [Except.isOk, Except.toBool])
  | ok p =>
    obtain ⟨hwell, hruns⟩ := compileAt_balanced hregular h
    exact ⟨hregular, p, rfl, hwell, fun budget context t => (hruns ⟨p, #[]⟩ rfl budget context).1⟩

end Templating
