import Templating.Proofs.Machine.Runs

/-!
# Machines in lockstep

Two machines run in lockstep if each step of one is matched by a step of the other until both are in
states that were asked for, or both stop with the same error. The relation is an inductive one, so
that it also says that they get there.
-/

namespace Templating

namespace Machine

/-- The next instruction stands in a stretch of code and stops with an error. -/
structure Setting.StopsAt (setting : Setting) (first last : Nat) (m : Machine) (e : Error) :
    Prop where
  first_le : first ≤ m.pc
  lt_last : m.pc < last
  step : m.step? setting.linked setting.invoke setting.code = some (.error e)

/-- Instructions of a stretch of code lead to one that stops with an error. -/
def Setting.Stops (setting : Setting) (first last : Nat) (m : Machine) (e : Error) : Prop :=
  ∃ m', setting.Reaches first last m m' ∧ setting.StopsAt first last m' e

/-- Code between two positions, and what it runs in. -/
structure Stretch extends Setting where
  first : Nat
  last : Nat

namespace Stretch

/-- All of the code. -/
def whole (setting : Setting) : Stretch := ⟨setting, 0, setting.code.size⟩

/-- One instruction of the stretch leads from one state to another. -/
abbrev Steps (r : Stretch) : Machine → Machine → Prop := r.toSetting.Steps r.first r.last

/-- Instructions of the stretch lead from one state to another. -/
abbrev Reaches (r : Stretch) : Machine → Machine → Prop := r.toSetting.Reaches r.first r.last

/-- The next instruction stands in the stretch and stops with an error. -/
abbrev StopsAt (r : Stretch) : Machine → Error → Prop := r.toSetting.StopsAt r.first r.last

/-- Instructions of the stretch lead to one that stops with an error. -/
abbrev Stops (r : Stretch) : Machine → Error → Prop := r.toSetting.Stops r.first r.last

end Stretch

/-- An error behind a run through a part of a stretch is an error in the stretch. -/
theorem Setting.Stops.after {setting : Setting} {first last : Nat} {m m' : Machine} {e : Error}
    (h : setting.Stops first last m' e) (hreaches : setting.Reaches first last m m') :
    setting.Stops first last m e := by
  obtain ⟨stop, hstop, hstep⟩ := h
  exact ⟨stop, Relation.ReflTransGen.trans hreaches hstop, hstep⟩

/-- An error in a part of a stretch is an error in the stretch. -/
theorem Setting.Stops.mono {setting : Setting} {first last first' last' : Nat} {m : Machine}
    {e : Error} (h : setting.Stops first last m e) (hfirst : first' ≤ first)
    (hlast : last ≤ last') : setting.Stops first' last' m e := by
  obtain ⟨stop, hreaches, hstop⟩ := h
  exact ⟨stop, hreaches.mono hfirst hlast, Nat.le_trans hfirst hstop.first_le,
    Nat.lt_of_lt_of_le hstop.lt_last hlast, hstop.step⟩

/-- Two machines, each in a stretch of code of its own, match each other step by step, until they
are in states that were asked for or stop with the same error. -/
inductive Lockstep (one other : Stretch) (Last : Machine → Machine → Prop) :
    Machine → Machine → Prop
  | last {m n : Machine} : Last m n → Lockstep one other Last m n
  | step {m n m' n' : Machine} : one.Steps m m' → other.Steps n n' →
    Lockstep one other Last m' n' → Lockstep one other Last m n
  | stop {m n : Machine} {e : Error} : one.StopsAt m e → other.StopsAt n e →
    Lockstep one other Last m n

namespace Lockstep

variable {one other : Stretch} {Last : Machine → Machine → Prop} {m n : Machine}

/-- Either both machines get to such states, or both stop with one error. -/
theorem reaches_or_stops (h : Lockstep one other Last m n) :
    (∃ m' n', Last m' n' ∧ one.Reaches m m' ∧ other.Reaches n n') ∨
      ∃ e, one.Stops m e ∧ other.Stops n e := by
  induction h with
  | last h => exact .inl ⟨_, _, h, .refl, .refl⟩
  | step hm hn _ ih =>
    rcases ih with ⟨m', n', hlast, hm', hn'⟩ | ⟨e, hstop, hstop'⟩
    · exact .inl ⟨m', n', hlast, .head hm hm', .head hn hn'⟩
    · exact .inr ⟨e, hstop.after (.single hm), hstop'.after (.single hn)⟩
  | stop hm hn => exact .inr ⟨_, ⟨_, .refl, hm⟩, _, .refl, hn⟩

/-- Runs with budgets get there after the same number of steps. -/
theorem exists_steps (h : Lockstep one other Last m n) :
    (∃ m' n' steps, Last m' n' ∧
      (∀ budget, m.runCode one.linked one.invoke one.code (budget + steps) =
        m'.runCode one.linked one.invoke one.code budget) ∧
      ∀ budget, n.runCode other.linked other.invoke other.code (budget + steps) =
        n'.runCode other.linked other.invoke other.code budget) ∨
    ∃ e steps,
      (∀ budget, m.runCode one.linked one.invoke one.code (budget + steps) = .error e) ∧
      ∀ budget, n.runCode other.linked other.invoke other.code (budget + steps) = .error e := by
  induction h with
  | last h => exact .inl ⟨_, _, 0, h, fun _ => rfl, fun _ => rfl⟩
  | step hm hn _ ih =>
    have hone := hm.runCode_succ
    have hother := hn.runCode_succ
    rcases ih with ⟨m', n', steps, hlast, hm', hn'⟩ | ⟨e, steps, hm', hn'⟩
    · exact .inl ⟨m', n', steps + 1, hlast, fun budget => (hone _).trans (hm' budget),
        fun budget => (hother _).trans (hn' budget)⟩
    · exact .inr ⟨e, steps + 1, fun budget => (hone _).trans (hm' budget),
        fun budget => (hother _).trans (hn' budget)⟩
  | @stop m n e hm hn =>
    refine .inr ⟨e, 1, fun budget => ?_, fun budget => ?_⟩
    · obtain ⟨i, hfetch, hadvance⟩ := Option.map_eq_some_iff.mp hm.step
      simp only [runCode, hfetch, hadvance]
    · obtain ⟨i, hfetch, hadvance⟩ := Option.map_eq_some_iff.mp hn.step
      simp only [runCode, hfetch, hadvance]

end Lockstep

end Machine

end Templating
