import Templating.Proofs.Machine.Faults
import Templating.Proofs.Program.Structured

/-!
# Where errors of runs are placed

An error of running code is placed at the instruction that failed. Errors of operators and filters
have no place before; an error of a macro has the place of the instruction of its code that failed,
and keeps it. So if every instruction of a program has a place, every error of a run is placed at
one of those that can fail, unless the main code itself was given up.
-/

namespace Templating

/-- The code of a program and of its macros. -/
def Program.codes (p : Program) : List Code := p.main :: p.macros.toList.map MacroDecl.code

/-- Carrying out the instruction may fail where what it refers to is there. -/
def Instruction.mayFail : Instruction → Bool
  | add | sub | mul | div | rem | neg => true
  | applyFilter _ _ | call _ | iterate _ => true
  | _ => false

namespace LinkedProgram

/-- The filters of the program fail plainly. -/
def FiltersPlain (linked : LinkedProgram) : Prop :=
  ∀ f ∈ linked.filters, f.Plain

/-- Every instruction of the program has a place, and refers to what is there. -/
def Charted (linked : LinkedProgram) : Prop :=
  ∀ c ∈ linked.program.codes, ∀ {pc : Nat} {i : Instruction}, c.instructions[pc]? = some i →
    (∃ place, linked.program.location? c pc = some place) ∧
      i.RefersWithin linked.program.filters.size linked.program.macros.size

/-- An instruction that may fail has the place. -/
def FailsAt (linked : LinkedProgram) (place : Location) : Prop :=
  ∃ c ∈ linked.program.codes, ∃ pc i, c.instructions[pc]? = some i ∧ i.mayFail = true ∧
    linked.program.location? c pc = some place

/-- The error is placed at an instruction that may fail. -/
def Blames (linked : LinkedProgram) (e : Error) : Prop :=
  ∃ place, e.location? = some place ∧ linked.FailsAt place

end LinkedProgram

open Result (FailsWith)

variable {linked : LinkedProgram} {invoke : Invocation} {code : Code}

namespace Machine

variable {m : Machine}

/-- The other instructions do not fail. -/
theorem execute_failsWith_mayFail {i : Instruction}
    (hrefers : i.RefersWithin linked.program.filters.size linked.program.macros.size) :
    (m.execute linked invoke code i).FailsWith fun _ => i.mayFail = true := by
  cases i with
  | add | sub | mul | div | rem | neg | applyFilter | call | iterate => exact fun _ _ => rfl
  | buildMacro id =>
    have hid : id < linked.program.macros.size := hrefers
    simp only [execute, Array.getElem?_eq_getElem hid]
    exact .ok _
  | popAutoEscape =>
    simp only [execute]
    split
    · exact .ok _
    · exact .ok _
  | _ => exact .ok _

/-- The error of an instruction is placed at it, or is one of a call that is placed already. -/
theorem advance_blames (hcharted : linked.Charted) (hfilters : linked.FiltersPlain)
    (hinvoke : ∀ callee args frames mode,
      (invoke callee args frames mode).FailsWith fun e => e.IsBare ∨ linked.Blames e)
    (hcode : code ∈ linked.program.codes) {i : Instruction} (hi : m.fetch? code = some i) :
    (m.advance linked invoke code i).FailsWith linked.Blames := by
  obtain ⟨⟨place, hplace⟩, hrefers⟩ := hcharted code hcode hi
  unfold advance
  dsimp only
  split
  · exact .ok _
  · next e hexecute =>
    have hmay := execute_failsWith_mayFail hrefers e hexecute
    refine .error ?_
    rw [locateError, hplace]
    rcases execute_failsWith (P := fun e => e.IsBare ∨ linked.Blames e)
      (fun _ h => .inl h.toIsBare)
      (fun f hf place v args => (hfilters f hf place v args).imp fun _ h => .inl h.toIsBare)
      hinvoke i e hexecute with hbare | ⟨other, hother, hfails⟩
    · refine ⟨place, ?_, code, hcode, m.pc, i, hi, hmay, hplace⟩
      simp [Error.locate, hbare.location, hbare.line]
    · exact ⟨other, by simp [Error.locate, hother], hfails⟩

/-- The error of a run is placed, unless the run was given up. -/
theorem runCode_blames (hcharted : linked.Charted) (hfilters : linked.FiltersPlain)
    (hinvoke : ∀ callee args frames mode,
      (invoke callee args frames mode).FailsWith fun e => e.IsBare ∨ linked.Blames e)
    (hcode : code ∈ linked.program.codes) (budget : Nat) :
    (m.runCode linked invoke code budget).FailsWith
      fun e => e = .ofFault .outOfSteps ∨ linked.Blames e := by
  induction budget generalizing m with
  | zero => exact .fail (.inl rfl)
  | succ budget ih =>
    rw [runCode]
    split
    · exact .ok _
    · next i hi =>
      split
      · exact ih
      · next e hadvance =>
        exact .error (.inr (advance_blames hcharted hfilters hinvoke hcode hi e hadvance))

end Machine

namespace LinkedProgram

/-- The code of a macro is code of the program. -/
theorem code_mem_codes {decl : MacroDecl} (h : decl ∈ linked.program.macros) :
    decl.code ∈ linked.program.codes :=
  List.mem_cons_of_mem _ (List.mem_map_of_mem (Array.mem_toList_iff.mpr h))

/-- Calls fail without a place or are placed, if entering macros does. -/
theorem callValue_blames {enter : Entry}
    (henter : ∀ decl ∈ linked.program.macros, ∀ frames mode,
      (enter decl frames mode).FailsWith fun e => e.IsBare ∨ linked.Blames e)
    (callee : Value) (args : List Value) (frames : Frames) (mode : Bool) :
    (linked.callValue enter callee args frames mode).FailsWith
      fun e => e.IsBare ∨ linked.Blames e := by
  unfold callValue
  split
  · split
    · exact .fail (.inl ⟨rfl, rfl⟩)
    · next decl hdecl =>
      split
      · exact .fail (.inl ⟨rfl, rfl⟩)
      · exact henter decl (Array.mem_of_getElem? hdecl) _ _
  · exact .ok _
  · exact .ok _
  · exact .fail (.inl ⟨rfl, rfl⟩)

/-- Macros fail without a place or are placed, however deep calls may nest. -/
theorem enter_blames (hcharted : linked.Charted) (hfilters : linked.FiltersPlain)
    (budget depth : Nat) : ∀ decl ∈ linked.program.macros, ∀ frames mode,
      (linked.enter budget depth decl frames mode).FailsWith
        fun e => e.IsBare ∨ linked.Blames e := by
  induction depth with
  | zero => exact fun _ _ _ _ => .fail (.inl ⟨rfl, rfl⟩)
  | succ depth ih =>
    intro decl hdecl frames mode
    unfold enter
    dsimp only
    split
    · exact .ok _
    · next e hrun =>
      refine .error ?_
      rcases Machine.runCode_blames hcharted hfilters (callValue_blames ih) (code_mem_codes hdecl)
        budget e hrun with rfl | hblames
      · exact .inl ⟨rfl, rfl⟩
      · exact .inr hblames

/-- The error of a run of a program is placed at an instruction that may fail, unless the run of
the main code was given up. -/
theorem runWithin_blames (hcharted : linked.Charted) (hfilters : linked.FiltersPlain)
    (budget : Nat) (context : Value) :
    (linked.runWithin budget context).FailsWith
      fun e => e = .ofFault .outOfSteps ∨ linked.Blames e := by
  unfold runWithin
  split
  · exact .ok _
  · next e hrun =>
    exact .error (Machine.runCode_blames hcharted hfilters
      (callValue_blames (enter_blames hcharted hfilters budget maxCallDepth))
      List.mem_cons_self budget e hrun)

end LinkedProgram

end Templating
