import Mathlib.Data.List.Basic
import Templating.Proofs.Machine.Evaluation
import Templating.Proofs.Machine.Runs
import Templating.Proofs.Program.Structured

/-!
# Structured code runs in balance

A machine that runs structured code never pops what is not there, closes only what is open, and ends
as it began. The shape of the code carries the proof: each construction, entered with the values it
takes, comes to its end with the values it leaves, and everything around it is untouched. What
is shown of a machine in balance goes back along its steps, be it safety for any number of steps or
an end in balance; the positions of the instructions that pushed the open frames are kept beside the
machine, to tell whose loop a loop is.
-/

namespace Templating

namespace Machine

section Plain

variable {linked : LinkedProgram} {invoke : Invocation} {code : Code} {m m' : Machine}
  {i : Instruction} {top below : List Value}

/-- A result that is turned into a state gives the state of its value. -/
theorem exists_of_map_eq_ok {r : Result Value} {f : Value → Machine} (h : r.map f = .ok m') :
    ∃ v, m' = f v := by
  cases r with
  | error e => simp [Except.map] at h
  | ok v => exact ⟨v, (Except.ok.inj h).symm⟩

/-- An instruction that leaves one value puts it in place of those it takes. -/
theorem execute_value (hgives : i.gives? = some 1) (hstack : m.stack = top ++ below)
    (htop : top.length = i.takes) (h : m.execute linked invoke code i = .ok m') :
    ∃ v, m' = m.moved (m.pc + 1) (v :: below) := by
  obtain ⟨vs, rfl⟩ : ∃ vs, top = vs.reverse := ⟨top.reverse, (List.reverse_reverse top).symm⟩
  have hm : m = m.moved m.pc (vs.reverse ++ below) := by
    rw [← hstack]
    rfl
  rw [hm] at h
  rw [List.length_reverse] at htop
  cases i with
  | lookup name | loadConst v =>
    obtain rfl := List.eq_nil_of_length_eq_zero htop
    exact ⟨_, (Except.ok.inj h).symm⟩
  | getAttr name | not =>
    obtain ⟨a, rfl⟩ := List.length_eq_one_iff.mp htop
    exact ⟨_, (Except.ok.inj h).symm⟩
  | neg =>
    obtain ⟨a, rfl⟩ := List.length_eq_one_iff.mp htop
    exact exists_of_map_eq_ok ((execute_unaryOp .neg a).symm.trans h)
  | getItem | eq | ne | gt | ge | lt | le | concat | within =>
    obtain ⟨a, b, rfl⟩ := List.length_eq_two.mp htop
    exact ⟨_, (Except.ok.inj h).symm⟩
  | add | sub | mul | div | rem =>
    obtain ⟨a, b, rfl⟩ := List.length_eq_two.mp htop
    exact exists_of_map_eq_ok ((arithmetic_moved _ a b).symm.trans h)
  | buildMap pairs =>
    simp only [execute, ← (show vs.length = pairedCount pairs from htop), popMany_moved] at h
    exact ⟨_, (Except.ok.inj h).symm⟩
  | buildList count =>
    obtain rfl : vs.length = count := htop
    rw [execute_buildList] at h
    exact ⟨_, (Except.ok.inj h).symm⟩
  | applyFilter filter args =>
    obtain ⟨subject, arguments, rfl⟩ := List.exists_cons_of_length_eq_add_one htop
    obtain rfl : arguments.length = args := Nat.succ.inj htop
    rw [List.reverse_cons, List.append_assoc, List.singleton_append] at h
    cases hfilter : linked.filters[filter]? with
    | none => simp [execute, applyFilter, hfilter, fail] at h
    | some f =>
      rw [execute_applyFilter hfilter] at h
      exact exists_of_map_eq_ok h
  | call args =>
    obtain ⟨callee, arguments, rfl⟩ := List.exists_cons_of_length_eq_add_one htop
    obtain rfl : arguments.length = args := Nat.succ.inj htop
    rw [List.reverse_cons, List.append_assoc, List.singleton_append, execute_call] at h
    exact exists_of_map_eq_ok h
  | buildMacro id =>
    obtain rfl := List.eq_nil_of_length_eq_zero htop
    simp only [execute] at h
    split at h
    · simp [fail] at h
    · exact ⟨_, (Except.ok.inj h).symm⟩
  | _ => simp [Instruction.gives?] at hgives
end Plain

/-- A machine and the positions of the instructions that pushed its own frames, innermost first. -/
structure Traced where
  machine : Machine
  pushers : List Nat

/-- The positions of the instructions that pushed the frames after one more instruction. -/
def pushersAfter (i : Instruction) (pc : Nat) (pushers : List Nat) : List Nat :=
  match i with
  | .pushFrame => pc :: pushers
  | .pushContext _ => pc :: pushers
  | .pushLoop => pc :: pushers
  | .popFrame => pushers.tail
  | _ => pushers

namespace Traced

/-- The machine after an instruction that leaves it in some state. -/
def after (t : Traced) (i : Instruction) (m : Machine) : Traced :=
  ⟨m, pushersAfter i t.machine.pc t.pushers⟩

/-- One instruction is carried out. -/
def Steps (setting : Setting) (t t' : Traced) : Prop :=
  ∃ i m, t.machine.fetch? setting.code = some i ∧
    t.machine.advance setting.linked setting.invoke setting.code i = .ok m ∧ t' = t.after i m

/-- The innermost frame loops. -/
def Loops (t : Traced) : Prop := ∃ f rest, t.machine.frames = f :: rest ∧ f.loop?.isSome

/-- The instruction finds open what it works on or closes: an iteration the loop that was pushed
right before it, the question whether a loop iterated the loop whose iteration ends there. -/
def Allows (code : Code) (t : Traced) : Instruction → Prop
  | .iterate _ => t.Loops ∧ ∃ first rest, t.pushers = first :: rest ∧ first + 1 = t.machine.pc ∧
    code.instructions[first]? = some .pushLoop
  | .pushDidNotIterate => t.Loops ∧ ∃ first rest, t.pushers = first :: rest ∧
    code.instructions[first]? = some .pushLoop ∧
    code.instructions[first + 1]? = some (.iterate t.machine.pc)
  | .popFrame => t.pushers ≠ []
  | .popAutoEscape => t.machine.modes ≠ []
  | .endCapture => t.machine.output.captures ≠ []
  | _ => True

/-- The machine is in balance: it has the frames it started with and its own, an instruction that
comes next finds its values and what it works on, and if none comes everything is closed. -/
structure Balanced (code : Code) (base : Nat) (t : Traced) : Prop where
  frames : t.machine.frames.length = base + t.pushers.length
  running : ∀ i, t.machine.fetch? code = some i →
    i.takes ≤ t.machine.stack.length ∧ t.Allows code i
  ended : t.machine.fetch? code = none → t.machine.stack = [] ∧ t.machine.modes = [] ∧
    t.machine.output.captures = [] ∧ t.pushers = []

/-- The machine is in balance, and stays so for so many steps. -/
def Safe (setting : Setting) (base : Nat) : Nat → Traced → Prop
  | 0, _ => True
  | steps + 1, t => t.Balanced setting.code base ∧ ∀ t', t.Steps setting t' →
    Safe setting base steps t'

variable {setting : Setting} {base steps p c : Nat} {t t' t'' : Traced} {below : List Value}

/-- Who is safe for one more step is safe. -/
theorem Safe.pred (h : t.Safe setting base (steps + 1)) : t.Safe setting base steps := by
  induction steps generalizing t with
  | zero => trivial
  | succ steps ih => exact ⟨h.1, fun t' hstep => ih (h.2 t' hstep)⟩

/-- The machine stands at a position with so many values on top of some others. -/
structure At (t : Traced) (pc count : Nat) (below : List Value) : Prop where
  pc : t.machine.pc = pc
  stack : ∃ top, t.machine.stack = top ++ below ∧ top.length = count

/-- Nothing but the position, the values and the variables of the innermost frame has changed, as
far as it matters for balance. -/
structure Keeps (t t' : Traced) : Prop where
  pushers : t'.pushers = t.pushers
  frames : ∃ f f' rest, t.machine.frames = f :: rest ∧ t'.machine.frames = f' :: rest ∧
    f'.loop? = f.loop?
  autoescape : t'.machine.autoescape = t.machine.autoescape
  modes : t'.machine.modes = t.machine.modes
  captures : t'.machine.output.captures.length = t.machine.output.captures.length

theorem Keeps.trans (h : t.Keeps t') (h' : t'.Keeps t'') : t.Keeps t'' where
  pushers := h'.pushers.trans h.pushers
  frames := by
    obtain ⟨f, g, rest, hf, hg, hloop⟩ := h.frames
    obtain ⟨g', e, rest', hg', he, hloop'⟩ := h'.frames
    obtain ⟨rfl, rfl⟩ := List.cons.inj (hg.symm.trans hg')
    exact ⟨f, e, rest, hf, he, hloop'.trans hloop⟩
  autoescape := h'.autoescape.trans h.autoescape
  modes := h'.modes.trans h.modes
  captures := h'.captures.trans h.captures

/-- What keeps everything keeps the number of frames. -/
theorem Keeps.framed (h : t.Keeps t')
    (hframed : t.machine.frames.length = base + t.pushers.length) :
    t'.machine.frames.length = base + t'.pushers.length := by
  obtain ⟨f, f', rest, hf, hf', _⟩ := h.frames
  rw [h.pushers, ← hframed, hf, hf', List.length_cons, List.length_cons]

/-- Nothing has changed at all. -/
theorem Keeps.refl {f : Frame} {rest : Frames} (h : t.machine.frames = f :: rest) : t.Keeps t :=
  ⟨rfl, ⟨f, f, rest, h, h, rfl⟩, rfl, rfl, rfl⟩

/-- A property that a machine in balance has as soon as it has it after one more instruction. Being
safe for a number of steps is one, coming to an end in balance is another. -/
def Hereditary (setting : Setting) (base : Nat) (P : Traced → Prop) : Prop :=
  ∀ ⦃t : Traced⦄ ⦃i : Instruction⦄, t.machine.fetch? setting.code = some i →
    t.Balanced setting.code base → (∀ t', t.Steps setting t' → P t') → P t

/-- Safety for a number of steps goes back along steps in balance. -/
theorem hereditary_safe : Hereditary setting base (Safe setting base steps) :=
  fun _ _ _ hbalanced hnext => Safe.pred ⟨hbalanced, hnext⟩

/-- A machine that no instruction is left for takes no step. -/
theorem not_steps_of_fetch?_eq_none (h : t.machine.fetch? setting.code = none) :
    ¬ t.Steps setting t' := by
  rintro ⟨i, _, hi, _⟩
  rw [h] at hi
  exact absurd hi (Option.some_ne_none i).symm

/-- One instruction that is in balance, and the property where it leads. -/
theorem Hereditary.of_execute {P : Traced → Prop} (hP : Hereditary setting base P) {i : Instruction}
    (hcode : setting.code.instructions[t.machine.pc]? = some i)
    (hframed : t.machine.frames.length = base + t.pushers.length)
    (htakes : i.takes ≤ t.machine.stack.length) (hallows : t.Allows setting.code i)
    (hnext : ∀ m, t.machine.execute setting.linked setting.invoke setting.code i = .ok m →
      P (t.after i m)) : P t := by
  have hfetch : t.machine.fetch? setting.code = some i := hcode
  refine hP hfetch ⟨hframed, fun j hj => ?_, fun hnone => ?_⟩ ?_
  · obtain rfl := Option.some.inj (hfetch.symm.trans hj)
    exact ⟨htakes, hallows⟩
  · rw [hfetch] at hnone
    exact absurd hnone (Option.some_ne_none i)
  · rintro t' ⟨j, m, hj, hadvance, rfl⟩
    obtain rfl := Option.some.inj (hfetch.symm.trans hj)
    refine hnext m ?_
    simp only [advance] at hadvance
    split at hadvance
    · rename_i m' hexecute
      rw [hexecute, Except.ok.inj hadvance]
    · simp at hadvance

/-- An instruction that goes on to the next position asks for nothing to be open. -/
theorem allows_of_gives {i : Instruction} {code : Code} (hgives : i.gives? = some c) :
    t.Allows code i := by
  cases i <;> trivial

/-- An instruction that goes on to the next position pushes no frame and pops none. -/
theorem pushersAfter_of_gives {i : Instruction} (hgives : i.gives? = some c) (pc : Nat)
    (pushers : List Nat) : pushersAfter i pc pushers = pushers := by
  cases i <;> first
    | rfl
    | simp [Instruction.gives?] at hgives

/-- The values at a position are as many as said. -/
theorem At.takes_le (h : t.At p c below) : c ≤ t.machine.stack.length := by
  obtain ⟨top, hstack, rfl⟩ := h.stack
  rw [hstack, List.length_append]
  exact Nat.le_add_right _ _

/-- Writing keeps the number of open captures. -/
theorem length_captures_write (o : Output) (s : String) :
    (o.write s).captures.length = o.captures.length := by
  obtain ⟨text, captures⟩ := o
  cases captures <;> rfl

/-- A machine with some frame of its own or of its caller has an innermost one. -/
theorem exists_frame (hframed : t.machine.frames.length = base + t.pushers.length)
    (hbase : 0 < base) : ∃ f rest, t.machine.frames = f :: rest :=
  List.exists_cons_of_length_pos (by omega)

/-- An instruction that goes on to the next position replaces its values and keeps all else. -/
theorem keeps_of_execute {i : Instruction} {m : Machine} (hgives : i.gives? = some c)
    (hat : t.At p i.takes below) (hframed : t.machine.frames.length = base + t.pushers.length)
    (hbase : 0 < base)
    (h : t.machine.execute setting.linked setting.invoke setting.code i = .ok m) :
    (t.after i m).At (p + 1) c below ∧ t.Keeps (t.after i m) := by
  obtain ⟨f, rest, hframes⟩ := exists_frame hframed hbase
  obtain ⟨top, hstack, htop⟩ := hat.stack
  have hpushers := pushersAfter_of_gives hgives t.machine.pc t.pushers
  have hpc : t.machine.pc + 1 = p + 1 := congrArg Nat.succ hat.pc
  by_cases hone : c = 1
  · subst hone
    obtain ⟨v, rfl⟩ := execute_value hgives hstack htop h
    exact ⟨⟨hpc, [v], rfl, rfl⟩, hpushers, ⟨f, f, rest, hframes, hframes, rfl⟩, rfl, rfl, rfl⟩
  · obtain ⟨⟨pc, stack, frames, output, autoescape, modes⟩, pushers⟩ := t
    subst hstack hframes
    cases i with
    | emitRaw text =>
      obtain rfl : 0 = c := Option.some.inj hgives
      obtain rfl := List.eq_nil_of_length_eq_zero htop
      obtain rfl := Except.ok.inj h
      exact ⟨⟨hpc, [], rfl, rfl⟩, rfl, ⟨f, f, rest, rfl, rfl, rfl⟩, rfl, rfl,
        length_captures_write output text⟩
    | emit =>
      obtain rfl : 0 = c := Option.some.inj hgives
      obtain ⟨v, rfl⟩ := List.length_eq_one_iff.mp htop
      obtain rfl := Except.ok.inj h
      exact ⟨⟨hpc, [], rfl, rfl⟩, rfl, ⟨f, f, rest, rfl, rfl, rfl⟩, rfl, rfl,
        length_captures_write output _⟩
    | storeLocal name =>
      obtain rfl : 0 = c := Option.some.inj hgives
      obtain ⟨v, rfl⟩ := List.length_eq_one_iff.mp htop
      obtain rfl := Except.ok.inj h
      exact ⟨⟨hpc, [], rfl, rfl⟩, rfl, ⟨f, f.store name v, rest, rfl, rfl, rfl⟩, rfl, rfl,
        rfl⟩
    | discardTop =>
      obtain rfl : 0 = c := Option.some.inj hgives
      obtain ⟨v, rfl⟩ := List.length_eq_one_iff.mp htop
      obtain rfl := Except.ok.inj h
      exact ⟨⟨hpc, [], rfl, rfl⟩, rfl, ⟨f, f, rest, rfl, rfl, rfl⟩, rfl, rfl, rfl⟩
    | _ => exact absurd hgives (by simp [Instruction.gives?, Ne.symm hone])

end Traced

end Machine

end Templating
