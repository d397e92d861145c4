import Templating.Proofs.Machine.Resemblance

/-!
# Programs that go on where others end

A program continues another one if it has the filters and the macros of that one under the same
numbers, and maybe more of them behind. What a call yields in the shorter program, by itself, it
yields in every program that continues it: all that was looked up on the way is there, under the
number that it has in the shorter one.
-/

namespace Templating

/-- The second program has what the tables of the first one hold. -/
structure LinkedProgram.Continues (l l' : LinkedProgram) : Prop where
  filters : ∀ {i : Nat} {f : Filter}, l.filters[i]? = some f → l'.filters[i]? = some f
  macros : ∀ {id : Nat} {d : MacroDecl}, l.program.macros[id]? = some d →
    ∃ e, l'.program.macros[id]? = some e ∧ d.Resembles l.program l'.program e

/-- What a call in the first way yields it yields in the second one. -/
def Invocation.YieldsTo (invoke invoke' : Invocation) : Prop :=
  ∀ ⦃callee : Value⦄ ⦃args : List Value⦄ ⦃frames : Frames⦄ ⦃mode : Bool⦄ ⦃v : Value⦄,
    invoke callee args frames mode = .ok v → invoke' callee args frames mode = .ok v

namespace Machine

variable {l l' : LinkedProgram} {invoke invoke' : Invocation} {c d : Code} {m m' : Machine}
  {i : Instruction}

/-- What an instruction does by itself it does in a program that goes on. -/
theorem execute_continued (h : l.Continues l') (hinvoke : invoke.YieldsTo invoke')
    (hcode : c.Resembles l.program l'.program d) (hfetch : m.fetch? c = some i)
    (hstep : m.execute l invoke c i = .ok m') : m.execute l' invoke' d i = .ok m' := by
  cases i with
  | applyFilter filter args =>
    obtain ⟨place, hplace, hplace'⟩ := hcode.location hfetch
    simp only [execute, applyFilter, filterPlace, hplace, hplace'] at hstep ⊢
    cases hfilter : l.filters[filter]? with
    | none => simp [hfilter, fail] at hstep
    | some f =>
      rw [hfilter] at hstep
      rw [h.filters hfilter]
      exact hstep
  | call args =>
    simp only [execute, call] at hstep ⊢
    split at hstep
    · next v hcall =>
      rw [hinvoke hcall]
      exact hstep
    · simp at hstep
  | buildMacro id =>
    simp only [execute] at hstep ⊢
    cases hdeclared : l.program.macros[id]? with
    | none => simp [hdeclared, fail] at hstep
    | some decl =>
      obtain ⟨decl', hdeclared', hdecl⟩ := h.macros hdeclared
      rw [hdeclared] at hstep
      simp only [hdeclared', hdecl.name]
      exact hstep
  | _ => exact hstep

/-- Code that comes to its end by itself comes to the same one in a program that goes on. -/
theorem runCode_continued (h : l.Continues l') (hinvoke : invoke.YieldsTo invoke')
    (hcode : c.Resembles l.program l'.program d) {budget : Nat}
    (hrun : m.runCode l invoke c budget = .ok m') : m.runCode l' invoke' d budget = .ok m' := by
  induction budget generalizing m with
  | zero => simp [runCode, fail] at hrun
  | succ budget ih =>
    have hfetch : m.fetch? d = m.fetch? c := by rw [fetch?, fetch?, hcode.instructions]
    rw [runCode] at hrun ⊢
    rw [hfetch]
    cases hnext : m.fetch? c with
    | none =>
      rw [hnext] at hrun
      exact hrun
    | some i =>
      simp only [hnext, advance] at hrun ⊢
      cases hstep : m.execute l invoke c i with
      | error e => simp [hstep] at hrun
      | ok after =>
        simp only [hstep] at hrun
        simp only [execute_continued h hinvoke hcode hnext hstep]
        exact ih hrun

end Machine

namespace LinkedProgram

variable {l l' : LinkedProgram}

/-- What a call yields by itself it yields in a program that goes on, if that is so of the bodies of
macros. -/
theorem Continues.callValue (h : l.Continues l') {enter enter' : Entry}
    (henter : ∀ {d e : MacroDecl}, d.Resembles l.program l'.program e →
      ∀ ⦃frames : Frames⦄ ⦃mode : Bool⦄ ⦃v : Value⦄,
        enter d frames mode = .ok v → enter' e frames mode = .ok v) :
    Invocation.YieldsTo (l.callValue enter) (l'.callValue enter') := by
  intro callee args frames mode v hcall
  cases callee with
  | callable id name =>
    simp only [LinkedProgram.callValue] at hcall ⊢
    cases hdeclared : l.program.macros[id]? with
    | none => simp [hdeclared, fail] at hcall
    | some d =>
      obtain ⟨e, hdeclared', hdecl⟩ := h.macros hdeclared
      simp only [hdeclared] at hcall
      simp only [hdeclared', hdecl.name, hdecl.params, MacroDecl.frames, hdecl.siblings]
      split at hcall
      · simp [fail] at hcall
      · next hcount =>
        rw [if_neg hcount]
        exact henter hdecl hcall
  | _ => exact hcall

/-- What the body of a macro yields by itself it yields in a program that goes on. The induction is
on how deep calls may still nest. -/
theorem Continues.enter (h : l.Continues l') (budget depth : Nat) {d e : MacroDecl}
    (hdecl : d.Resembles l.program l'.program e) {frames : Frames} {mode : Bool} {v : Value}
    (hbody : l.enter budget depth d frames mode = .ok v) :
    l'.enter budget depth e frames mode = .ok v := by
  induction depth generalizing d e frames mode v with
  | zero => simp [LinkedProgram.enter, fail] at hbody
  | succ depth ih =>
    simp only [LinkedProgram.enter] at hbody ⊢
    split at hbody
    · next m hrun =>
      have hcalls : Invocation.YieldsTo (l.callValue (l.enter budget depth))
          (l'.callValue (l'.enter budget depth)) :=
        h.callValue fun hd _ _ _ => ih hd
      rw [Machine.runCode_continued h hcalls hdecl.code hrun]
      exact hbody
    · simp at hbody

/-- What a call yields by itself it yields in a program that goes on. -/
theorem Continues.invocation (h : l.Continues l') (budget : Nat) :
    Invocation.YieldsTo (l.invocation budget) (l'.invocation budget) :=
  h.callValue fun hdecl _ _ _ => h.enter budget maxCallDepth hdecl

end LinkedProgram

end Templating
