import Mathlib.Data.Option.Defs
import Templating.Machine.Run

/-!
# Programs that resemble each other

What running code does depends on its instructions, on the locations of those that fail or apply a
filter, and on the macros and filters they refer to. It depends neither on the name of the program
nor on the numbers that its files have. So calls have the same results in programs whose macros
have the same instructions at the same locations, and so has a run of such code.
-/

namespace Templating

/-- Code of two programs with the same instructions, each of which has a location, the same one in
both. -/
structure Code.Resembles (p q : Program) (c d : Code) : Prop where
  instructions : d.instructions = c.instructions
  location : ∀ {pc : Nat} {i : Instruction}, c.instructions[pc]? = some i →
    ∃ place, p.location? c pc = some place ∧ q.location? d pc = some place

/-- Macros of two programs that are called alike. -/
structure MacroDecl.Resembles (p q : Program) (d e : MacroDecl) : Prop where
  name : e.name = d.name
  params : e.params = d.params
  siblings : e.siblings = d.siblings
  code : d.code.Resembles p q e.code

/-- Programs with the same filters, and with macros of the same numbers that are called alike. -/
structure LinkedProgram.Resembles (l l' : LinkedProgram) : Prop where
  filters : l'.filters = l.filters
  macros : ∀ id : Nat, Option.Rel (MacroDecl.Resembles l.program l'.program)
    l.program.macros[id]? l'.program.macros[id]?

/-- Finding its filters depends on nothing of a program but their names. -/
theorem Program.link_congr {p q : Program} (h : q.filters = p.filters) (registry : Registry) :
    q.link registry = (p.link registry).map fun linked => ⟨q, linked.filters⟩ := by
  have hmap (filters : Result (Array Filter)) :
      (do return ⟨q, ← filters⟩ : Result LinkedProgram) =
        (do return ⟨p, ← filters⟩ : Result LinkedProgram).map
          fun linked => ⟨q, linked.filters⟩ := by
    cases filters <;> rfl
  rw [link, link, h]
  exact hmap _

/-- Frames matter to a call only through the variables of the outermost one. -/
theorem LinkedProgram.callValue_congr {linked : LinkedProgram} {enter : LinkedProgram.Entry}
    {callee : Value} {args : List Value} {frames frames' : Frames} {mode : Bool}
    (h : frames.root.snapshot = frames'.root.snapshot) :
    linked.callValue enter callee args frames mode =
      linked.callValue enter callee args frames' mode := by
  cases callee <;> simp only [callValue, MacroDecl.frames, h]

namespace Machine

variable {l l' : LinkedProgram} {invoke : Invocation} {c d : Code} {m : Machine} {i : Instruction}

/-- An instruction does the same in both programs. -/
theorem execute_congr (h : l.Resembles l') (hcode : c.Resembles l.program l'.program d)
    (hfetch : m.fetch? c = some i) : m.execute l' invoke d i = m.execute l invoke c i := by
  cases i with
  | applyFilter filter args =>
    obtain ⟨place, hplace, hplace'⟩ := hcode.location hfetch
    simp only [execute, applyFilter, filterPlace, hplace, hplace', h.filters]
  | buildMacro id =>
    have hmacro := h.macros id
    simp only [execute]
    generalize l.program.macros[id]? = d?, l'.program.macros[id]? = e? at hmacro
    cases hmacro with
    | none => rfl
    | some hdecl => simp only [hdecl.name]
  | _ => rfl

/-- A step of both programs is the same, also if it fails. -/
theorem advance_congr (h : l.Resembles l') (hcode : c.Resembles l.program l'.program d)
    (hfetch : m.fetch? c = some i) : m.advance l' invoke d i = m.advance l invoke c i := by
  obtain ⟨place, hplace, hplace'⟩ := hcode.location hfetch
  simp only [advance, execute_congr h hcode hfetch, locateError, hplace, hplace']

/-- A run of both programs is the same, if calls are. -/
theorem runCode_congr (h : l.Resembles l') (hcode : c.Resembles l.program l'.program d)
    (budget : Nat) (m : Machine) :
    m.runCode l' invoke d budget = m.runCode l invoke c budget := by
  induction budget generalizing m with
  | zero => rfl
  | succ budget ih =>
    have hfetch : m.fetch? d = m.fetch? c := by rw [fetch?, fetch?, hcode.instructions]
    rw [runCode, runCode, hfetch]
    cases hnext : m.fetch? c with
    | none => rfl
    | some i =>
      simp only [advance_congr h hcode hnext]
      cases m.advance l invoke c i with
      | error e => rfl
      | ok m' => exact ih m'

end Machine

namespace LinkedProgram.Resembles

variable {l l' : LinkedProgram}

/-- Values are called alike if macros are entered alike. -/
theorem callValue_eq (h : l.Resembles l') {enter enter' : Entry}
    (henter : ∀ {d e : MacroDecl}, d.Resembles l.program l'.program e → enter' e = enter d) :
    l'.callValue enter' = l.callValue enter := by
  funext callee args frames mode
  cases callee with
  | callable id name =>
    have hmacro := h.macros id
    simp only [callValue]
    generalize l.program.macros[id]? = d?, l'.program.macros[id]? = e? at hmacro
    cases hmacro with
    | none => rfl
    | some hdecl =>
      simp only [hdecl.name, hdecl.params, henter hdecl, MacroDecl.frames, hdecl.siblings]
  | _ => rfl

/-- Macros are entered alike, however deep calls may still nest. -/
theorem enter_eq (h : l.Resembles l') (budget depth : Nat) {d e : MacroDecl}
    (hdecl : d.Resembles l.program l'.program e) :
    l'.enter budget depth e = l.enter budget depth d := by
  induction depth generalizing d e with
  | zero => rfl
  | succ depth ih =>
    funext frames mode
    simp only [enter, h.callValue_eq ih, Machine.runCode_congr h hdecl.code]

/-- The main code of both programs calls values alike. -/
theorem invocation_eq (h : l.Resembles l') (budget : Nat) :
    l'.invocation budget = l.invocation budget :=
  h.callValue_eq (h.enter_eq budget maxCallDepth)

end LinkedProgram.Resembles

end Templating
