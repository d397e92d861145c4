import Mathlib.Logic.Relation
import Templating.Machine.Run

/-!
# Runs of a machine through a stretch of code

A run through a stretch of code carries out instructions of that stretch only. It either gets to a
state, which may stand anywhere, or stops with the error of one of those instructions. Placing an
error changes neither its class nor its detail, so errors are compared by their faults.
-/

namespace Templating

/-- The positions an instruction may lead to. -/
def Instruction.successors (pc : Nat) : Instruction → List Nat
  | .jump target => [target]
  | .iterate target => [pc + 1, target]
  | .jumpIfFalse target => [pc + 1, target]
  | .jumpIfFalseOrPop target => [pc + 1, target]
  | .jumpIfTrueOrPop target => [pc + 1, target]
  | _ => [pc + 1]

namespace Machine

/-- Placing the error of an instruction does not change its fault. -/
theorem fault_locateError (linked : LinkedProgram) (code : Code) (pc : Nat) (e : Error) :
    (locateError linked code pc e).fault = e.fault := by
  unfold locateError
  split
  · exact e.fault_locate _ _
  · rfl

section Positions

variable {linked : LinkedProgram} {invoke : Invocation} {code : Code} {m m' : Machine} {v : Value}

@[simp] theorem pc_pop : m.pop.2.pc = m.pc := by
  unfold pop
  split <;> rfl

@[simp] theorem pc_next : m.next.pc = m.pc + 1 := rfl

@[simp] theorem pc_goto {target : Nat} : (m.goto target).pc = target := rfl

@[simp] theorem pc_push : (m.push v).pc = m.pc := rfl

@[simp] theorem pc_popMany {count : Nat} : (m.popMany count).2.pc = m.pc := rfl

@[simp] theorem pc_write {s : String} : (m.write s).pc = m.pc := rfl

@[simp] theorem pc_pushFrame {f : Frame} : (m.pushFrame f).pc = m.pc := rfl

/-- An instruction leads to one of its successors. -/
theorem pc_execute {i : Instruction} (h : m.execute linked invoke code i = .ok m') :
    m'.pc ∈ i.successors m.pc := by
  cases i with
  | iterate target =>
    simp only [execute, iterate] at h
    split at h
    · simp [fail] at h
    · split at h <;> simp [← Except.ok.inj h, Instruction.successors]
  | jumpIfFalse target | jumpIfFalseOrPop target | jumpIfTrueOrPop target =>
    simp only [execute, Except.ok.injEq] at h
    subst h
    split <;> simp [Instruction.successors]
  | add | sub | mul | div | rem =>
    simp only [execute, arithmetic, popTwo] at h
    split at h
    · simp [← Except.ok.inj h, Instruction.successors]
    · simp at h
  | neg =>
    simp only [execute] at h
    split at h
    · simp [← Except.ok.inj h, Instruction.successors]
    · simp at h
  | applyFilter filter args =>
    simp only [execute, applyFilter] at h
    split at h
    · simp [fail] at h
    · split at h
      · simp [← Except.ok.inj h, Instruction.successors]
      · simp at h
  | call args =>
    simp only [execute, call] at h
    split at h
    · simp [← Except.ok.inj h, Instruction.successors]
    · simp at h
  | popAutoEscape =>
    simp only [execute] at h
    split at h <;> simp [← Except.ok.inj h, Instruction.successors]
  | buildMacro id =>
    simp only [execute] at h
    split at h
    · simp [fail] at h
    · simp [← Except.ok.inj h, Instruction.successors]
  | _ =>
    simp only [execute, Except.ok.injEq] at h
    subst h
    simp [unary, binary, comparison, popTwo, Instruction.successors]

end Positions

/-- What a machine runs in: a program, the way values are called, and the code at hand. -/
structure Setting where
  linked : LinkedProgram
  invoke : Invocation
  code : Code

namespace Setting

variable {setting : Setting} {first middle last : Nat} {m m' m'' : Machine}

/-- One instruction of a stretch of code leads from one state to another. -/
structure Steps (setting : Setting) (first last : Nat) (m m' : Machine) : Prop where
  first_le : first ≤ m.pc
  lt_last : m.pc < last
  step : m.step? setting.linked setting.invoke setting.code = some (.ok m')

/-- Instructions of a stretch of code lead from one state to another. -/
def Reaches (setting : Setting) (first last : Nat) : Machine → Machine → Prop :=
  Relation.ReflTransGen (setting.Steps first last)

/-- Instructions of a stretch of code lead to one that stops with an error of the same class and
detail. -/
def Fails (setting : Setting) (first last : Nat) (m : Machine) (e : Error) : Prop :=
  ∃ m' e', setting.Reaches first last m m' ∧ first ≤ m'.pc ∧ m'.pc < last ∧
    m'.step? setting.linked setting.invoke setting.code = some (.error e') ∧ e'.fault = e.fault

/-- A run through a stretch of code ends as a result says: in the state, or with such an error. -/
def Delivers (setting : Setting) (first last : Nat) (m : Machine) : Result Machine → Prop
  | .ok m' => setting.Reaches first last m m'
  | .error e => setting.Fails first last m e

/-- A run through a part of a stretch is a run through the stretch. -/
theorem Reaches.mono {first' last' : Nat} (h : setting.Reaches first last m m')
    (hfirst : first' ≤ first) (hlast : last ≤ last') : setting.Reaches first' last' m m' := by
  refine Relation.ReflTransGen.mono (fun _ _ hstep => ?_) _ _ h
  exact ⟨Nat.le_trans hfirst hstep.first_le, Nat.lt_of_lt_of_le hstep.lt_last hlast, hstep.step⟩

/-- An error in a part of a stretch is an error in the stretch. -/
theorem Fails.mono {first' last' : Nat} {e : Error} (h : setting.Fails first last m e)
    (hfirst : first' ≤ first) (hlast : last ≤ last') : setting.Fails first' last' m e := by
  obtain ⟨stop, e', hreaches, hle, hlt, hstep, hfault⟩ := h
  exact ⟨stop, e', hreaches.mono hfirst hlast, Nat.le_trans hfirst hle,
    Nat.lt_of_lt_of_le hlt hlast, hstep, hfault⟩

/-- What a part of a stretch delivers, the stretch delivers. -/
theorem Delivers.mono {first' last' : Nat} {r : Result Machine}
    (h : setting.Delivers first last m r) (hfirst : first' ≤ first) (hlast : last ≤ last') :
    setting.Delivers first' last' m r := by
  cases r with
  | ok m' => exact Reaches.mono h hfirst hlast
  | error e => exact Fails.mono h hfirst hlast

/-- A run goes on where an earlier one got to. -/
theorem Delivers.after {r : Result Machine} (h : setting.Delivers first last m' r)
    (hreaches : setting.Reaches first last m m') : setting.Delivers first last m r := by
  cases r with
  | ok m'' => exact Relation.ReflTransGen.trans hreaches h
  | error e =>
    obtain ⟨stop, e', hstop, hrest⟩ := h
    exact ⟨stop, e', Relation.ReflTransGen.trans hreaches hstop, hrest⟩

/-- Two computations one after the other are delivered by two stretches one after the other: the
second one starts in the state that the first one leaves. -/
theorem Delivers.bind {α β : Type} {x : Result α} {f : α → Machine} {y : α → Result β}
    {g : β → Machine} (h : setting.Delivers first middle m (x.map f)) (hfirst : first ≤ middle)
    (hlast : middle ≤ last)
    (hrest : ∀ a, x = .ok a → setting.Delivers middle last (f a) ((y a).map g)) :
    setting.Delivers first last m ((x >>= y).map g) := by
  cases x with
  | ok a =>
    exact ((hrest a rfl).mono hfirst (Nat.le_refl _)).after (Reaches.mono h (Nat.le_refl _) hlast)
  | error e => exact Fails.mono h (Nat.le_refl _) hlast

/-- An instruction that succeeds is a step. -/
theorem Steps.single {i : Instruction} (hcode : setting.code.instructions[m.pc]? = some i)
    (hexecute : m.execute setting.linked setting.invoke setting.code i = .ok m') :
    setting.Steps m.pc (m.pc + 1) m m' := by
  refine ⟨Nat.le_refl _, Nat.lt_succ_self _, ?_⟩
  simp only [step?, fetch?, hcode, Option.map_some, advance, hexecute]

/-- A step is made by an instruction. -/
theorem Steps.exists_execute (h : setting.Steps first last m m') :
    ∃ i, setting.code.instructions[m.pc]? = some i ∧
      m.execute setting.linked setting.invoke setting.code i = .ok m' := by
  obtain ⟨i, hi, hadvance⟩ := Option.map_eq_some_iff.mp h.step
  refine ⟨i, hi, ?_⟩
  simp only [advance] at hadvance
  split at hadvance
  · rename_i hexecute
    exact hexecute.trans hadvance
  · simp at hadvance

/-- An instruction of a stretch leads from one state to another. -/
theorem Reaches.step {pc : Nat} {i : Instruction} (hcode : setting.code.instructions[pc]? = some i)
    (hpc : m.pc = pc)
    (hexecute : m.execute setting.linked setting.invoke setting.code i = .ok m')
    (hfirst : first ≤ pc) (hlast : pc < last) : setting.Reaches first last m m' := by
  subst hpc
  exact Reaches.mono (.single (.single hcode hexecute)) hfirst hlast

/-- One instruction delivers what carrying it out gives. -/
theorem Delivers.single {i : Instruction} {r : Result Machine}
    (hcode : setting.code.instructions[m.pc]? = some i)
    (hexecute : m.execute setting.linked setting.invoke setting.code i = r) :
    setting.Delivers m.pc (m.pc + 1) m r := by
  cases r with
  | ok m' => exact Relation.ReflTransGen.single (.single hcode hexecute)
  | error e =>
    refine ⟨m, locateError setting.linked setting.code m.pc e, .refl, Nat.le_refl _,
      Nat.lt_succ_self _, ?_, fault_locateError _ _ _ _⟩
    simp only [step?, fetch?, hcode, Option.map_some, advance, hexecute]

/-- A step of a stretch is a step of a run with a budget. -/
theorem Steps.runCode_succ (h : setting.Steps first last m m') (budget : Nat) :
    m.runCode setting.linked setting.invoke setting.code (budget + 1) =
      m'.runCode setting.linked setting.invoke setting.code budget := by
  obtain ⟨i, hfetch, hadvance⟩ := Option.map_eq_some_iff.mp h.step
  simp only [runCode, hfetch, hadvance]

/-- A run with a budget passes through every state that is reached, at the cost of some steps. -/
theorem Reaches.runCode_add (h : setting.Reaches first last m m') :
    ∃ steps, ∀ budget, m.runCode setting.linked setting.invoke setting.code (budget + steps) =
      m'.runCode setting.linked setting.invoke setting.code budget := by
  induction h with
  | refl => exact ⟨0, fun _ => rfl⟩
  | tail _ hstep ih =>
    obtain ⟨steps, hsteps⟩ := ih
    refine ⟨steps + 1, fun budget => ?_⟩
    rw [Nat.add_comm steps, ← Nat.add_assoc, hsteps, hstep.runCode_succ]

/-- A run with a budget that is large enough ends in a state that is reached and that no instruction
is left for. -/
theorem Reaches.runCode_ok (h : setting.Reaches first last m m')
    (hend : m'.fetch? setting.code = none) :
    ∃ least, ∀ budget, least < budget →
      m.runCode setting.linked setting.invoke setting.code budget = .ok m' := by
  obtain ⟨steps, hsteps⟩ := h.runCode_add
  refine ⟨steps, fun budget hbudget => ?_⟩
  obtain ⟨more, rfl⟩ := Nat.exists_eq_add_of_lt hbudget
  rw [show steps + more + 1 = more + 1 + steps by omega, hsteps, runCode, hend]

/-- A run with a budget that is large enough stops with the error. -/
theorem Fails.runCode_error {e : Error} (h : setting.Fails first last m e) :
    ∃ steps e', e'.fault = e.fault ∧
      ∀ budget, m.runCode setting.linked setting.invoke setting.code (budget + steps) =
        .error e' := by
  obtain ⟨stop, e', hreaches, _, _, hstep, hfault⟩ := h
  obtain ⟨steps, hsteps⟩ := hreaches.runCode_add
  obtain ⟨i, hfetch, hadvance⟩ := Option.map_eq_some_iff.mp hstep
  refine ⟨steps + 1, e', hfault, fun budget => ?_⟩
  rw [Nat.add_comm steps, ← Nat.add_assoc, hsteps]
  simp only [runCode, hfetch, hadvance]

end Setting

end Machine

end Templating
