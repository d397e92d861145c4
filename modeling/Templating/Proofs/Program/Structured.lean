import Templating.Machine.Step
import Templating.Program.Emission

/-!
# Structured code

The shape of the code that templates compile to, without reference to templates. A piece of code at
a position takes some values from the top of the stack and leaves others in their place. What jumps
is built in whole: a jump goes to a position inside its own construction or right behind it, and
what is opened (a frame, a loop, an escaping mode, a capture) is closed at the end of the same
construction.
-/

namespace Templating

namespace Instruction

/-- How many values an instruction pops, or looks at, from the top of the stack. -/
def takes : Instruction → Nat
  | emit | storeLocal _ | getAttr _ | neg | not | pushContext _ | pushLoop | jumpIfFalse _ => 1
  | jumpIfFalseOrPop _ | jumpIfTrueOrPop _ | pushAutoEscape | discardTop => 1
  | getItem | add | sub | mul | div | rem | eq | ne | gt | ge | lt | le | concat | within => 2
  | buildMap pairs => Machine.pairedCount pairs
  | buildList count => count
  | applyFilter _ args => args + 1
  | call args => args + 1
  | _ => 0

/-- How many values an instruction leaves in place of those it takes, if all it does is to go on to
the next position: it neither jumps nor opens or closes anything. -/
def gives? : Instruction → Option Nat
  | emitRaw _ | emit | storeLocal _ | discardTop => some 0
  | lookup _ | getAttr _ | getItem | loadConst _ | buildMap _ | buildList _ => some 1
  | add | sub | mul | div | rem | neg | eq | ne | gt | ge | lt | le | not | concat => some 1
  | within | applyFilter _ _ | call _ | buildMacro _ => some 1
  | _ => none

/-- The instruction jumps, if at all, to a position between two others, both included. -/
def JumpsWithin (first last : Nat) : Instruction → Prop
  | iterate target => first ≤ target ∧ target ≤ last
  | jump target => first ≤ target ∧ target ≤ last
  | jumpIfFalse target => first ≤ target ∧ target ≤ last
  | jumpIfFalseOrPop target => first ≤ target ∧ target ≤ last
  | jumpIfTrueOrPop target => first ≤ target ∧ target ≤ last
  | _ => True

/-- The instruction refers to a filter and a macro of tables of the given sizes, if to any. -/
def RefersWithin (filters macros : Nat) : Instruction → Prop
  | applyFilter filter _ => filter < filters
  | buildMacro id => id < macros
  | _ => True

/-- Wider limits allow what narrower ones do. -/
theorem JumpsWithin.mono {first last first' last' : Nat} {i : Instruction}
    (h : i.JumpsWithin first last) (hfirst : first' ≤ first) (hlast : last ≤ last') :
    i.JumpsWithin first' last' := by
  cases i <;> simp only [JumpsWithin] at * <;> omega

/-- Larger tables allow what smaller ones do. -/
theorem RefersWithin.mono {filters macros filters' macros' : Nat} {i : Instruction}
    (h : i.RefersWithin filters macros) (hfilters : filters ≤ filters')
    (hmacros : macros ≤ macros') : i.RefersWithin filters' macros' := by
  cases i <;> simp only [RefersWithin] at * <;> omega

end Instruction

/-- `Structured p code a b`: the code at position `p` takes `a` values and leaves `b`. -/
inductive Structured : Nat → List Instruction → Nat → Nat → Prop
  | nil {p a : Nat} : Structured p [] a a
  | append {p a b c : Nat} {first second : List Instruction} :
    Structured p first a b → Structured (p + first.length) second b c →
      Structured p (first ++ second) a c
  /-- An instruction that goes on to the next position. -/
  | single {p b : Nat} {i : Instruction} : i.gives? = some b → Structured p [i] i.takes b
  /-- Values further down the stack are left alone. -/
  | above {p a b : Nat} {code : List Instruction} (below : Nat) :
    Structured p code a b → Structured p code (a + below) (b + below)
  /-- The right operand of an operator that may skip it. -/
  | shortcut {p : Nat} {jump : Nat → Instruction} {right : List Instruction} :
    jump = .jumpIfFalseOrPop ∨ jump = .jumpIfTrueOrPop → Structured (p + 1) right 0 1 →
      Structured p (jump (p + 1 + right.length) :: right) 1 1
  /-- Code that is never run. -/
  | skipped {p : Nat} {code : List Instruction} : Structured (p + 1) code 0 0 →
    Structured p (.jump (p + 1 + code.length) :: code) 0 0
  /-- Code that is skipped if the top value is false. -/
  | guarded {p : Nat} {yes : List Instruction} : Structured (p + 1) yes 0 0 →
    Structured p (.jumpIfFalse (p + 1 + yes.length) :: yes) 1 0
  /-- One of two pieces of code, by the top value. -/
  | branch {p : Nat} {yes no : List Instruction} : Structured (p + 1) yes 0 0 →
    Structured (p + 1 + yes.length + 1) no 0 0 →
      Structured p (.jumpIfFalse (p + 1 + yes.length + 1) :: yes ++
        .jump (p + 1 + yes.length + 1 + no.length) :: no) 1 0
  /-- A loop over the top value, whose body takes a key and a value. -/
  | loop {p : Nat} {body : List Instruction} : Structured (p + 2) body 2 0 →
    Structured p (.pushLoop :: .iterate (p + 2 + body.length + 1) :: body ++
      [.jump (p + 1), .popFrame]) 1 0
  /-- A loop that also leaves whether it had nothing to visit. -/
  | loopOrElse {p : Nat} {body : List Instruction} : Structured (p + 2) body 2 0 →
    Structured p (.pushLoop :: .iterate (p + 2 + body.length + 1) :: body ++
      [.jump (p + 1), .pushDidNotIterate, .popFrame]) 1 1
  | scope {p : Nat} {body : List Instruction} : Structured (p + 1) body 0 0 →
    Structured p (.pushFrame :: body ++ [.popFrame]) 0 0
  | contextScope {p : Nat} {isolated : Bool} {body : List Instruction} :
    Structured (p + 1) body 0 0 → Structured p (.pushContext isolated :: body ++ [.popFrame]) 1 0
  /-- Code that runs in the escaping mode the top value says. -/
  | mode {p a : Nat} {body : List Instruction} : Structured (p + 1) body a 0 →
    Structured p (.pushAutoEscape :: body ++ [.popAutoEscape]) (a + 1) 0
  /-- Code whose output becomes a value. -/
  | capture {p : Nat} {body : List Instruction} : Structured (p + 1) body 0 0 →
    Structured p (.beginCapture :: body ++ [.endCapture]) 0 1

namespace Structured

/-- Opening and closing instructions around code add no jump to it. -/
theorem jumpsWithin_enclosed {p : Nat} {opening closing : Instruction} {body : List Instruction}
    (hbody : ∀ i ∈ body, i.JumpsWithin (p + 1) (p + 1 + body.length))
    (hopening : opening.JumpsWithin p p) (hclosing : closing.JumpsWithin p p) :
    ∀ i ∈ opening :: body ++ [closing],
      i.JumpsWithin p (p + (opening :: body ++ [closing]).length) := by
  intro i hi
  simp only [List.length_append, List.length_cons, List.length_nil]
  simp only [List.cons_append, List.mem_cons, List.mem_append, List.not_mem_nil, or_false] at hi
  rcases hi with rfl | hi | rfl
  · exact hopening.mono (Nat.le_refl _) (by omega)
  · exact (hbody i hi).mono (by omega) (by omega)
  · exact hclosing.mono (Nat.le_refl _) (by omega)

/-- Every jump of structured code stays in it or goes right behind it. -/
theorem jumpsWithin {p a b : Nat} {code : List Instruction} (h : Structured p code a b) :
    ∀ i ∈ code, i.JumpsWithin p (p + code.length) := by
  induction h with
  | nil => simp
  | append _ _ ihfirst ihsecond =>
    intro i hi
    rw [List.length_append]
    rcases List.mem_append.mp hi with hi | hi
    · exact (ihfirst i hi).mono (Nat.le_refl _) (by omega)
    · exact (ihsecond i hi).mono (by omega) (by omega)
  | @single p b i hgives =>
    intro j hj
    rw [List.mem_singleton.mp hj]
    cases i <;> trivial
  | above _ _ ih => exact ih
  | shortcut hjump _ ih =>
    intro i hi
    rw [List.length_cons]
    rcases List.mem_cons.mp hi with rfl | hi
    · rcases hjump with rfl | rfl <;> exact ⟨by omega, by omega⟩
    · exact (ih i hi).mono (by omega) (by omega)
  | skipped _ ih =>
    intro i hi
    rw [List.length_cons]
    rcases List.mem_cons.mp hi with rfl | hi
    · exact ⟨by omega, by omega⟩
    · exact (ih i hi).mono (by omega) (by omega)
  | guarded _ ih =>
    intro i hi
    rw [List.length_cons]
    rcases List.mem_cons.mp hi with rfl | hi
    · exact ⟨by omega, by omega⟩
    · exact (ih i hi).mono (by omega) (by omega)
  | branch _ _ ihyes ihno =>
    intro i hi
    simp only [List.length_append, List.length_cons]
    rcases List.mem_append.mp hi with hi | hi
    · rcases List.mem_cons.mp hi with rfl | hi
      · exact ⟨by omega, by omega⟩
      · exact (ihyes i hi).mono (by omega) (by omega)
    · rcases List.mem_cons.mp hi with rfl | hi
      · exact ⟨by omega, by omega⟩
      · exact (ihno i hi).mono (by omega) (by omega)
  | loop _ ih =>
    intro i hi
    simp only [List.length_append, List.length_cons, List.length_nil]
    simp only [List.cons_append, List.mem_cons, List.mem_append, List.not_mem_nil, or_false] at hi
    rcases hi with rfl | rfl | hi | rfl | rfl
    · trivial
    · exact ⟨by omega, by omega⟩
    · exact (ih i hi).mono (by omega) (by omega)
    · exact ⟨by omega, by omega⟩
    · trivial
  | loopOrElse _ ih =>
    intro i hi
    simp only [List.length_append, List.length_cons, List.length_nil]
    simp only [List.cons_append, List.mem_cons, List.mem_append, List.not_mem_nil, or_false] at hi
    rcases hi with rfl | rfl | hi | rfl | rfl | rfl
    · trivial
    · exact ⟨by omega, by omega⟩
    · exact (ih i hi).mono (by omega) (by omega)
    · exact ⟨by omega, by omega⟩
    · trivial
    · trivial
  | scope _ ih => exact jumpsWithin_enclosed ih trivial trivial
  | contextScope _ ih => exact jumpsWithin_enclosed ih trivial trivial
  | mode _ ih => exact jumpsWithin_enclosed ih trivial trivial
  | capture _ ih => exact jumpsWithin_enclosed ih trivial trivial

end Structured

end Templating
