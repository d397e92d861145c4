import Templating.Proofs.Machine.Faults
import Templating.Proofs.Machine.Safety

/-!
# Structured code comes to an end

Coming to an end in balance goes back along steps, so structured code does. With a budget that is
large enough a run is not given up then, and its result does not change when the budget grows. Calls
run with the same budget, so that for a small budget they may be given up where they would not be
for a larger one; the result settles when the calls of the run have settled, of which there are
finitely many.
-/

namespace Templating

namespace Machine.Traced

/-- Whatever steps the machine carries out, it stays in balance and comes to an end. -/
inductive Ends (setting : Setting) (base : Nat) : Traced → Prop
  | intro {t : Traced} : t.Balanced setting.code base →
    (∀ t', t.Steps setting t' → Ends setting base t') → Ends setting base t

variable {setting : Setting} {base : Nat}

/-- Coming to an end goes back along steps in balance. -/
theorem hereditary_ends : Hereditary setting base (Ends setting base) :=
  fun _ _ _ hbalanced hnext => .intro hbalanced hnext

/-- A machine in balance that no instruction is left for has come to an end. -/
theorem Ends.of_fetch?_eq_none {t : Traced} (hbalanced : t.Balanced setting.code base)
    (hfetch : t.machine.fetch? setting.code = none) : t.Ends setting base :=
  .intro hbalanced fun _ hstep => absurd hstep (not_steps_of_fetch?_eq_none hfetch)

end Machine.Traced

/-- From some budget on the results are the same. -/
def Settles {α : Type} (results : Nat → α) (result : α) : Prop :=
  ∃ least, ∀ budget, least ≤ budget → results budget = result

/-- The results of calls settle. -/
def Invocation.Settles (invocations : Nat → Invocation) (limit : Invocation) : Prop :=
  ∀ callee args frames mode, Templating.Settles
    (fun budget => invocations budget callee args frames mode) (limit callee args frames mode)

namespace Machine

variable {linked : LinkedProgram} {invocations : Nat → Invocation} {limit : Invocation}
  {code : Code} {m : Machine}

/-- What an instruction does settles when calls do. -/
theorem execute_settles (hsettles : Invocation.Settles invocations limit) (i : Instruction) :
    Settles (fun budget => m.execute linked (invocations budget) code i)
      (m.execute linked limit code i) := by
  cases i with
  | call args =>
    obtain ⟨least, hleast⟩ := hsettles (m.popMany args).2.pop.1 (m.popMany args).1 m.frames
      m.autoescape
    exact ⟨least, fun budget hbudget => by simp only [execute, call, hleast budget hbudget]⟩
  | _ => exact ⟨0, fun _ _ => rfl⟩

/-- What a step does settles when calls do. -/
theorem advance_settles (hsettles : Invocation.Settles invocations limit) (i : Instruction) :
    Settles (fun budget => m.advance linked (invocations budget) code i)
      (m.advance linked limit code i) := by
  have hexecute : Settles (fun budget => m.execute linked (invocations budget) code i)
      (m.execute linked limit code i) := execute_settles hsettles i
  obtain ⟨least, hleast⟩ := hexecute
  exact ⟨least, fun budget hbudget => by simp only [advance, hleast budget hbudget]⟩

/-- The error of a step is that of its instruction, with a place. -/
theorem advance_conclusive (hfilters : linked.FiltersConclusive) (hlimit : limit.Conclusive)
    (i : Instruction) : (m.advance linked limit code i).Conclusive := by
  intro e he
  simp only [advance] at he
  split at he
  · simp at he
  · rename_i e' hexecute
    obtain rfl := Except.error.inj he
    rw [fault_locateError]
    exact execute_conclusive hfilters hlimit i e' hexecute

/-- A machine that comes to an end with settled calls has a conclusive result as soon as the budgets
of its own steps and of its calls are large enough. The induction is on the steps up to the end. -/
theorem Traced.Ends.exists_runCode {base : Nat} {t : Traced}
    (h : t.Ends ⟨linked, limit, code⟩ base) (hsettles : Invocation.Settles invocations limit)
    (hlimit : limit.Conclusive) (hfilters : linked.FiltersConclusive) :
    ∃ r : Result Machine, r.Conclusive ∧ ∃ least, ∀ budget steps, least ≤ budget → least ≤ steps →
      t.machine.runCode linked (invocations budget) code steps = r := by
  induction h with
  | @intro t _ _ ih =>
    cases hfetch : t.machine.fetch? code with
    | none =>
      refine ⟨.ok t.machine, .ok _, 1, fun budget steps _ hsteps => ?_⟩
      obtain ⟨steps, rfl⟩ := Nat.exists_eq_add_of_le' hsteps
      simp only [runCode, hfetch]
    | some i =>
      have hadvances : Settles (fun budget => t.machine.advance linked (invocations budget) code i)
          (t.machine.advance linked limit code i) := advance_settles hsettles i
      obtain ⟨least, hleast⟩ := hadvances
      cases hadvance : t.machine.advance linked limit code i with
      | error e =>
        refine ⟨.error e, .error (advance_conclusive hfilters hlimit i e hadvance), least + 1,
          fun budget steps hbudget hsteps => ?_⟩
        obtain ⟨steps, rfl⟩ := Nat.exists_eq_add_of_le' (Nat.le_of_add_left_le hsteps)
        simp only [runCode, hfetch, hleast budget (Nat.le_of_succ_le hbudget), hadvance]
      | ok m' =>
        obtain ⟨r, hr, least', hrun⟩ := ih (t.after i m') ⟨i, m', hfetch, hadvance, rfl⟩
        refine ⟨r, hr, max least least' + 1, fun budget steps hbudget hsteps => ?_⟩
        obtain ⟨steps, rfl⟩ := Nat.exists_eq_add_of_le' (Nat.le_of_add_left_le hsteps)
        simp only [runCode, hfetch, hleast budget (by omega), hadvance]
        exact hrun budget steps (by omega) (by omega)

end Machine

end Templating
