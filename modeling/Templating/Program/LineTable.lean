/-!
# Line tables

Where instructions come from, as runs: a run begins at an instruction and lasts to the beginning of
the next run. Looking up an instruction is a binary search for the last run that begins no later.
-/

namespace Templating

/-- A run of instructions from one line of one file. -/
structure LineRun where
  first : Nat
  file : Nat
  line : Nat
  deriving Repr, DecidableEq, Inhabited

namespace LineTable

/-- Note the place of the next instruction; a new run begins only if the place changes. -/
def push (runs : Array LineRun) (index file line : Nat) : Array LineRun :=
  match runs.back? with
  | some last => if last.line = line ∧ last.file = file then runs else runs.push ⟨index, file, line⟩
  | none => runs.push ⟨index, file, line⟩

/-- Halve the stretch of `size` runs from `base` on, keeping a run that begins no later than the
instruction at its front if there is one. -/
def halve (runs : Array LineRun) (index : Nat) : Nat → Nat → Nat → Nat
  | 0, base, _ => base
  | fuel + 1, base, size =>
    if size ≤ 1 then base
    else
      let half := size / 2
      let middle := base + half
      let base := match runs[middle]? with
        | some run => if index < run.first then base else middle
        | none => base
      halve runs index fuel base (size - half)

/-- The place of an instruction. -/
def find? (runs : Array LineRun) (index : Nat) : Option (Nat × Nat) :=
  let base := halve runs index runs.size 0 runs.size
  match runs[base]? with
  | some run => if run.first ≤ index then some (run.file, run.line) else none
  | none => none

end LineTable

end Templating
