import Templating.Machine.Run
import Templating.Proofs.Emission.Growth
import Templating.Proofs.Emission.Laws
import Templating.Proofs.Program.LineTable
import Templating.Proofs.Program.Tagless
import Templating.Proofs.Template.Verbatim

/-!
# Code of literal text

Literal text compiles to instructions that write it, whatever tags, filters and other templates
there are, and running them writes the text, over every context.
-/

namespace Templating

/-- The instructions that write texts. The empty text takes none. -/
def writing (texts : List String) : List Instruction :=
  (texts.filter fun text => text ≠ "").map .emitRaw

namespace Emission

/-- Literal text is emitted as an instruction that writes it. -/
theorem node_literal (elsewhere : Elsewhere) (env : Surroundings) (text : String) (span : Span)
    (s : EmissionState) : ∃ code t, node elsewhere env (.literal text span) s = .ok (code, t) ∧
      code.instructions = writing [text] ∧ t.filters = s.filters := by
  rw [node]
  let there : EmissionState := { s with line := span.start.line }
  have hline : setLine span.start.line s = .ok ((), there) := rfl
  by_cases hempty : text = ""
  · rw [if_pos hempty]
    refine ⟨[], there, bind_eq_ok.mpr ⟨(), there, hline, rfl⟩, ?_, rfl⟩
    rw [hempty]
    rfl
  · rw [if_neg hempty]
    refine ⟨_, _, bind_eq_ok.mpr ⟨(), there, hline, op_eq_ok.mpr ⟨rfl, rfl⟩⟩, ?_, rfl⟩
    simp [writing, hempty, Fragment.instructions]

/-- Literal texts are emitted as instructions that write them. -/
theorem nodesOf_literals (depth : Nat) (env : Surroundings) (file : String)
    (parts : List (String × Span)) (s : EmissionState) :
    ∃ code t, nodesOf (atDepth (depth + 1)) env ((literals parts).map fun n => (file, n)) s =
      .ok (code, t) ∧ code.instructions = writing (parts.map Prod.fst) ∧ t.filters = s.filters := by
  induction parts generalizing s with
  | nil => exact ⟨[], s, rfl, rfl, rfl⟩
  | cons part rest ih =>
    let entered : EmissionState :=
      { s with file := (intern s.files file).1, files := (intern s.files file).2 }
    obtain ⟨code, t, hnode, hcode, hfilters⟩ :=
      node_literal (atDepth depth) env part.1 part.2 entered
    have hfirst : atDepth (depth + 1) env [.literal part.1 part.2] entered = .ok (code, t) :=
      nodes_singleton_eq_ok.mpr hnode
    obtain ⟨more, u, hmore, hmoreCode, hmoreFilters⟩ := ih { t with file := s.file }
    refine ⟨code ++ more, u, ?_, ?_, ?_⟩
    · exact bind_eq_ok.mpr ⟨code, _, inFile_eq_ok.mpr ⟨t, hfirst, rfl⟩,
        bind_eq_ok.mpr ⟨more, u, hmore, pure_eq_ok.mpr ⟨rfl, rfl⟩⟩⟩
    · have hwriting : writing ((part :: rest).map Prod.fst) =
          writing [part.1] ++ writing (rest.map Prod.fst) := by
        simp only [writing, List.map_cons, ← List.map_append, ← List.filter_append]
        rfl
      rw [hwriting, ← hcode, ← hmoreCode]
      exact List.map_append
    · exact hmoreFilters.trans hfilters

end Emission

/-- Instructions that write texts write them one after the other, in a run that is not given up
before. -/
theorem Machine.runCode_emitRaw (linked : LinkedProgram) (invoke : Invocation) {code : Code}
    {done : List Instruction} {texts : List String}
    (hcode : code.instructions.toList = done ++ texts.map .emitRaw) {m : Machine}
    (hpc : m.pc = done.length) (hcaptures : m.output.captures = []) {budget : Nat}
    (hbudget : texts.length < budget) :
    ∃ m', m.runCode linked invoke code budget = .ok m' ∧
      m'.output.text.toList = m.output.text.toList ++ texts.flatMap String.toList := by
  induction texts generalizing done m budget with
  | nil =>
    obtain ⟨more, rfl⟩ : ∃ i, budget = i + 1 := Nat.exists_eq_add_one.mpr hbudget
    have hfetch : m.fetch? code = none := by
      rw [fetch?, ← Array.getElem?_toList, hcode, hpc]
      simp
    refine ⟨m, ?_, ?_⟩
    · rw [runCode, hfetch]
    · rw [List.flatMap_nil, List.append_nil]
  | cons text rest ih =>
    obtain ⟨more, rfl⟩ : ∃ i, budget = i + 1 :=
      Nat.exists_eq_add_one.mpr (Nat.lt_of_le_of_lt (Nat.zero_le _) hbudget)
    have hfetch : m.fetch? code = some (.emitRaw text) := by
      rw [fetch?, ← Array.getElem?_toList, hcode, hpc]
      simp
    have hadvance : m.advance linked invoke code (.emitRaw text) = .ok (m.write text).next := rfl
    have hwrite : (m.write text).output = ⟨m.output.text ++ text, []⟩ := by
      change m.output.write text = _
      cases houtput : m.output with
      | mk written captures =>
        rw [houtput] at hcaptures
        obtain rfl : captures = [] := hcaptures
        rfl
    have hcode' : code.instructions.toList =
        (done ++ [.emitRaw text]) ++ rest.map .emitRaw := by
      rw [hcode, List.append_assoc]
      rfl
    have hpc' : (m.write text).next.pc = (done ++ [Instruction.emitRaw text]).length := by
      rw [List.length_append, ← hpc]
      rfl
    obtain ⟨m', hrun, htext⟩ := ih (m := (m.write text).next) hcode' hpc'
      (congrArg Output.captures hwrite) (Nat.lt_of_succ_lt_succ hbudget)
    refine ⟨m', ?_, ?_⟩
    · rw [runCode, hfetch]
      simpa only [hadvance] using hrun
    · have hbehind : (m.write text).next.output.text = m.output.text ++ text :=
        congrArg Output.text hwrite
      rw [htext, hbehind, String.toList_append, List.append_assoc, List.flatMap_cons]

/-- Literal text has no tags. -/
theorem tagless_literals (parts : List (String × Span)) : ∀ n ∈ literals parts, n.IsTagless := by
  intro n hn
  obtain ⟨part, -, rfl⟩ := List.mem_map.mp hn
  trivial

/-- Literal text compiles to instructions that write it. -/
theorem TemplateSet.compile_literals (registry : Registry) (autoescape : Bool)
    (entry name : String) (parts : List (String × Span)) :
    ∃ program, (single ⟨name, literals parts⟩).compile registry autoescape entry = .ok program ∧
      program.filters = #[] ∧
      program.main.instructions.toList = writing (parts.map Prod.fst) := by
  obtain ⟨depth, hdepth⟩ : ∃ depth, referenceBudget = depth + 1 := ⟨referenceBudget - 1, by decide⟩
  obtain ⟨code, u, hnodes, hcode, hfilters⟩ := Emission.nodesOf_literals depth
    (taglessEnv registry ⟨name, literals parts⟩) name parts (Emission.entered {} name)
  exact ⟨_, compile_of_tagless autoescape entry (tagless_literals parts) (hdepth ▸ hnodes),
    hfilters, (Code.ofFragment_describes code).1.trans hcode⟩

/-- Empty texts say nothing. -/
theorem flatMap_nonempty (texts : List String) :
    (texts.filter fun text => text ≠ "").flatMap String.toList = texts.flatMap String.toList := by
  induction texts with
  | nil => rfl
  | cons text rest ih =>
    by_cases hempty : text = ""
    · rw [List.filter_cons_of_neg (by simp [hempty]), List.flatMap_cons, hempty, ih]
      rfl
    · rw [List.filter_cons_of_pos (by simp [hempty]), List.flatMap_cons, List.flatMap_cons, ih]

/-- A program that writes texts and applies no filters writes them over every context, in a run that
is not given up before. -/
theorem LinkedProgram.runWithin_writing {linked : LinkedProgram} {texts : List String}
    (hcode : linked.program.main.instructions.toList = writing texts) {budget : Nat}
    (hbudget : texts.length < budget) (context : Value) :
    linked.runWithin budget context = .ok (String.ofList (texts.flatMap String.toList)) := by
  let written := texts.filter fun text => text ≠ ""
  have hwritten : written.length < budget := by
    have hle : written.length ≤ texts.length := List.length_filter_le _ _
    omega
  have hstart : linked.program.main.instructions.toList = [] ++ written.map .emitRaw := hcode
  obtain ⟨m, hrun, htext⟩ := Machine.runCode_emitRaw linked (linked.invocation budget)
    (m := linked.start context) hstart rfl rfl hwritten
  have htext : m.output.text = String.ofList (texts.flatMap String.toList) := by
    rw [← flatMap_nonempty texts, ← String.toList_inj, String.toList_ofList]
    exact htext
  rw [runWithin, hrun, ← htext]

end Templating
