import Templating.Proofs.Machine.Lockstep
import Templating.Proofs.Machine.Safety

/-!
# Machines on top of others

A machine in balance never looks at values, escaping modes and captures that were there before it
started, and it appends to what was written before. So it can run on top of another machine: its own
values, modes and captures over those of the other one. Its outermost frame may be replaced by
frames that look the same from above. What it is above of cannot be noticed, except by calls, whose
macros run over the outermost frame of all.
-/

namespace Templating

/-- The instruction with its jump, if it is one, so much further on. -/
def Instruction.shifted (count : Nat) : Instruction → Instruction
  | iterate target => iterate (count + target)
  | jump target => jump (count + target)
  | jumpIfFalse target => jumpIfFalse (count + target)
  | jumpIfFalseOrPop target => jumpIfFalseOrPop (count + target)
  | jumpIfTrueOrPop target => jumpIfTrueOrPop (count + target)
  | i => i

/-- Jumps that are moved on by nothing stay. -/
@[simp] theorem Instruction.shifted_zero (i : Instruction) : i.shifted 0 = i := by
  cases i <;> simp [shifted]

/-- The frames with other frames in place of the outermost one. -/
def Frames.above (outermost : Frame → Frames) : Frames → Frames
  | [] => []
  | [f] => outermost f
  | f :: g :: rest => f :: above outermost (g :: rest)

/-- Written text and captures behind and over those of an earlier output. -/
def Output.above (earlier o : Output) : Output :=
  { earlier.write o.text with captures := o.captures ++ (earlier.write o.text).captures }

namespace Machine

/-- What a machine is on top of: how much further on its code stands, the values and the escaping
modes below, what was written before, and the frames that stand for its outermost one. -/
structure Below where
  shift : Nat := 0
  stack : List Value := []
  modes : List Bool := []
  output : Output := {}
  outermost : Frame → Frames := fun f => [f]

/-- The machine on top of something. -/
def above (m : Machine) (b : Below) : Machine where
  pc := b.shift + m.pc
  stack := m.stack ++ b.stack
  frames := m.frames.above b.outermost
  output := b.output.above m.output
  autoescape := m.autoescape
  modes := m.modes ++ b.modes

end Machine

/-- The outermost frame has a property. -/
def Frames.Outermost (Q : Frame → Prop) (fs : Frames) : Prop := ∃ f, fs.getLast? = some f ∧ Q f

/-- Frames that look like a single one from above, and go on doing so when variables are stored. -/
structure Frames.StandsFor (Q : Frame → Prop) (outermost : Frame → Frames) : Prop where
  ne_nil : ∀ {f}, Q f → outermost f ≠ []
  load : ∀ {f}, Q f → ∀ name, Frames.load (outermost f) name = Frames.load [f] name
  store : ∀ {f}, Q f → ∀ name v,
    Frames.store (outermost f) name v = outermost (f.store name v) ∧ Q (f.store name v)

namespace Frames

variable {Q : Frame → Prop} {outermost : Frame → Frames} {fs : Frames} {f g : Frame}

/-- Frames over some others have the same outermost one. -/
theorem outermost_cons_cons : Outermost Q (f :: g :: fs) ↔ Outermost Q (g :: fs) := by
  simp [Outermost]

/-- There is an outermost frame, and it stays where it is. -/
theorem Outermost.ne_nil (h : Outermost Q fs) : fs ≠ [] := by
  obtain ⟨f, hf, _⟩ := h
  rintro rfl
  simp at hf

/-- A frame on top leaves the outermost one. -/
theorem Outermost.cons (h : Outermost Q fs) (f : Frame) : Outermost Q (f :: fs) := by
  obtain ⟨g, rest, rfl⟩ := List.exists_cons_of_ne_nil h.ne_nil
  exact outermost_cons_cons.mpr h

/-- A frame over frames with others in place of their outermost one. -/
theorem above_cons (h : fs ≠ []) : above outermost (f :: fs) = f :: above outermost fs := by
  obtain ⟨g, rest, rfl⟩ := List.exists_cons_of_ne_nil h
  rfl

/-- There are frames if there were some. -/
theorem above_ne_nil (hstands : StandsFor Q outermost) (h : Outermost Q fs) :
    above outermost fs ≠ [] := by
  obtain ⟨f, hf, hQ⟩ := h
  cases fs with
  | nil => simp at hf
  | cons g rest =>
    cases rest with
    | nil =>
      obtain rfl : g = f := by simpa using hf
      exact hstands.ne_nil hQ
    | cons g' rest => exact List.cons_ne_nil _ _

/-- The same variables are found. -/
theorem load_above (hstands : StandsFor Q outermost) (h : Outermost Q fs) (name : String) :
    load (above outermost fs) name = load fs name := by
  induction fs with
  | nil => rfl
  | cons f rest ih =>
    cases rest with
    | nil =>
      obtain ⟨f', hf, hQ⟩ := h
      obtain rfl : f = f' := by simpa using hf
      exact hstands.load hQ name
    | cons g rest =>
      rw [above_cons (List.cons_ne_nil _ _), load, load, ih (outermost_cons_cons.mp h)]

/-- Variables are stored alike. -/
theorem store_above (hstands : StandsFor Q outermost) (h : Outermost Q fs) (name : String)
    (v : Value) : store (above outermost fs) name v = above outermost (store fs name v) ∧
      Outermost Q (store fs name v) := by
  cases fs with
  | nil => exact absurd rfl h.ne_nil
  | cons f rest =>
    cases rest with
    | nil =>
      obtain ⟨f', hf, hQ⟩ := h
      obtain rfl : f = f' := by simpa using hf
      obtain ⟨hstore, hstored⟩ := hstands.store hQ name v
      exact ⟨hstore, f.store name v, rfl, hstored⟩
    | cons g rest => exact ⟨rfl, outermost_cons_cons.mpr (outermost_cons_cons.mp h)⟩

/-- A frame over others is popped alike. -/
theorem pop_above (hstands : StandsFor Q outermost) (h : Outermost Q (g :: fs)) :
    pop (above outermost (f :: g :: fs)) = above outermost (pop (f :: g :: fs)) := by
  obtain ⟨g', rest, hrest⟩ := List.exists_cons_of_ne_nil (above_ne_nil hstands h)
  rw [above_cons (List.cons_ne_nil _ _), hrest]
  exact hrest.symm

/-- The outermost frame is the one at the bottom of the frames in place of it. -/
theorem root_above {bottom : Frame} (hbottom : ∀ f, (outermost f).getLast? = some bottom)
    (hfs : fs ≠ []) : root (above outermost fs) = bottom := by
  suffices (above outermost fs).getLast? = some bottom by simp only [root, this, Option.getD_some]
  induction fs with
  | nil => exact absurd rfl hfs
  | cons f fs ih =>
    cases fs with
    | nil => exact hbottom f
    | cons g fs =>
      have hrest := ih (List.cons_ne_nil _ _)
      rw [above_cons (List.cons_ne_nil _ _)]
      obtain ⟨f', rest, hf'⟩ := List.exists_cons_of_ne_nil
        (l := above outermost (g :: fs)) fun hnil => by simp [hnil] at hrest
      rw [hf'] at hrest ⊢
      rwa [List.getLast?_cons_cons]

end Frames

namespace Output

/-- Writing goes behind what was written before. -/
theorem above_write (earlier o : Output) (s : String) :
    (earlier.above o).write s = earlier.above (o.write s) := by
  obtain ⟨text, captures⟩ := earlier
  obtain ⟨text', captures'⟩ := o
  cases captures' with
  | nil => cases captures <;> simp [above, write, String.append_assoc]
  | cons c rest => cases captures <;> simp [above, write]

/-- A capture of its own ends alike. -/
theorem above_endCapture {earlier o : Output} (h : o.captures ≠ []) (mode : Bool) :
    (earlier.above o).endCapture mode =
      ((o.endCapture mode).1, earlier.above (o.endCapture mode).2) := by
  obtain ⟨text, captures⟩ := o
  obtain ⟨c, rest, rfl⟩ := List.exists_cons_of_ne_nil h
  rfl

end Output

namespace Machine

/-- The same instructions stand so much further on in the code of another setting, at the same
locations, and refer to the same filters and to macros of the same names. -/
structure Below.Carries (b : Below) (inner outer : Setting) : Prop where
  code : ∀ {pc : Nat} {i : Instruction}, inner.code.instructions[pc]? = some i →
    outer.code.instructions[b.shift + pc]? = some (i.shifted b.shift)
  location : ∀ {pc : Nat} {i : Instruction}, inner.code.instructions[pc]? = some i →
    outer.linked.program.location? outer.code (b.shift + pc) =
      inner.linked.program.location? inner.code pc
  name : outer.linked.program.name = inner.linked.program.name
  filters : outer.linked.filters = inner.linked.filters
  macros : ∀ id : Nat, (outer.linked.program.macros[id]?).map MacroDecl.name =
    (inner.linked.program.macros[id]?).map MacroDecl.name

/-- The call that comes next, if one does, has the same result on top of something. -/
def Below.CallsAlike (b : Below) (inner outer : Setting) (m : Machine) : Prop :=
  ∀ args, m.fetch? inner.code = some (.call args) →
    outer.invoke (m.popMany args).2.pop.1 (m.popMany args).1 (m.frames.above b.outermost)
        m.autoescape =
      inner.invoke (m.popMany args).2.pop.1 (m.popMany args).1 m.frames m.autoescape

variable {b : Below} {inner outer : Setting} {Q : Frame → Prop} {m : Machine}

/-- Values on top are popped alike. -/
theorem popMany_above {args : Nat} (h : args ≤ m.stack.length) :
    (m.above b).popMany args = ((m.popMany args).1, (m.popMany args).2.above b) := by
  simp only [popMany, above, List.take_append_of_le_length h, List.drop_append_of_le_length h]

/-- A value on top is popped alike. -/
theorem pop_above (h : 1 ≤ m.stack.length) :
    (m.above b).pop = (m.pop.1, m.pop.2.above b) := by
  obtain ⟨pc, stack, frames, output, autoescape, modes⟩ := m
  obtain ⟨v, rest, rfl⟩ := List.exists_cons_of_length_pos h
  rfl

/-- Two values on top are popped alike. -/
theorem popTwo_above (h : 2 ≤ m.stack.length) :
    (m.above b).popTwo = (m.popTwo.1, m.popTwo.2.1, m.popTwo.2.2.above b) := by
  obtain ⟨pc, stack, frames, output, autoescape, modes⟩ := m
  obtain ⟨v, rest, rfl⟩ := List.exists_cons_of_length_pos (Nat.le_trans (Nat.le_succ 1) h)
  obtain ⟨w, rest, rfl⟩ := List.exists_cons_of_length_pos (Nat.le_of_succ_le_succ h)
  rfl

/-- An operator that may fail works alike. -/
theorem arithmetic_above (h : 2 ≤ m.stack.length) (f : Value → Value → Result Value) :
    (m.above b).arithmetic f = (m.arithmetic f).map fun m' => m'.above b := by
  simp only [arithmetic, popTwo_above h]
  cases f m.popTwo.1 m.popTwo.2.1 <;> rfl

/-- An operator on two values works alike. -/
theorem binary_above (h : 2 ≤ m.stack.length) (f : Value → Value → Value) :
    (m.above b).binary f = (m.binary f).above b := by
  simp only [binary, popTwo_above h]
  rfl

/-- An operator on one value works alike. -/
theorem unary_above (h : 1 ≤ m.stack.length) (f : Value → Value) :
    (m.above b).unary f = (m.unary f).above b := by
  simp only [unary, pop_above h]
  rfl

/-- Writing works alike. -/
theorem write_above (s : String) : (m.above b).write s = (m.write s).above b := by
  obtain ⟨pc, stack, frames, output, autoescape, modes⟩ := m
  simp only [above, write, Output.above_write]

/-- A frame on top is pushed alike. -/
theorem pushFrame_above (h : m.frames ≠ []) (f : Frame) :
    (m.above b).pushFrame f = (m.pushFrame f).above b := by
  simp only [pushFrame, above, Frames.above_cons h]

/-- A filter is applied alike. -/
theorem applyFilter_above (hcarries : b.Carries inner outer) {filter args : Nat}
    (hcode : inner.code.instructions[m.pc]? = some (.applyFilter filter args))
    (h : args + 1 ≤ m.stack.length) :
    (m.above b).applyFilter outer.linked outer.code filter args =
      (m.applyFilter inner.linked inner.code filter args).map fun m' => m'.above b := by
  have hplace : filterPlace outer.linked outer.code (m.above b) =
      filterPlace inner.linked inner.code m := by
    simp only [filterPlace, above, hcarries.location hcode, hcarries.name]
  have hsubject : 1 ≤ (m.popMany args).2.stack.length := by
    simp only [popMany, List.length_drop]
    omega
  simp only [applyFilter, popMany_above (Nat.le_of_succ_le h), pop_above hsubject, hplace,
    hcarries.filters]
  cases inner.linked.filters[filter]? with
  | none => rfl
  | some f =>
    cases hf : f (filterPlace inner.linked inner.code m) (m.popMany args).2.pop.1
      (m.popMany args).1 <;> simp only [hf] <;> rfl

/-- A value is called alike, if the call has the same result. -/
theorem call_above {args : Nat} (h : args + 1 ≤ m.stack.length)
    (hcalls : b.CallsAlike inner outer m)
    (hcode : inner.code.instructions[m.pc]? = some (.call args)) :
    (m.above b).call outer.invoke args =
      (m.call inner.invoke args).map fun m' => m'.above b := by
  have hcallee : 1 ≤ (m.popMany args).2.stack.length := by
    simp only [popMany, List.length_drop]
    omega
  have hcall := hcalls args hcode
  have hframes : (m.above b).frames = m.frames.above b.outermost := rfl
  have hmode : (m.above b).autoescape = m.autoescape := rfl
  simp only [call, popMany_above (Nat.le_of_succ_le h), pop_above hcallee, hframes, hmode, hcall]
  cases inner.invoke (m.popMany args).2.pop.1 (m.popMany args).1 m.frames m.autoescape <;> rfl

/-- A loop whose frame is on top of another goes on alike. -/
theorem iterate_above {f g : Frame} {rest : Frames} {l : LoopState} {target : Nat}
    (hframes : m.frames = f :: g :: rest) (hloop : f.loop? = some l) :
    (m.above b).iterate (b.shift + target) = (m.iterate target).map fun m' => m'.above b := by
  obtain ⟨pc, stack, frames, output, autoescape, modes⟩ := m
  subst hframes
  simp only [iterate, above, Frames.above, Frames.currentLoop?, List.findSome?_cons, hloop]
  cases l.next? with
  | none => rfl
  | some visit =>
    simp only [Frames.setLoop, hloop, Frames.store]
    rfl

/-! Most of what an instruction does leaves the frames. -/

@[simp] theorem frames_next : m.next.frames = m.frames := rfl

@[simp] theorem frames_goto (target : Nat) : (m.goto target).frames = m.frames := rfl

@[simp] theorem frames_push (v : Value) : (m.push v).frames = m.frames := rfl

@[simp] theorem frames_write (s : String) : (m.write s).frames = m.frames := rfl

@[simp] theorem frames_pop : m.pop.2.frames = m.frames := by
  unfold pop
  split <;> rfl

@[simp] theorem frames_popTwo : m.popTwo.2.2.frames = m.frames := by
  simp only [popTwo, frames_pop]

@[simp] theorem frames_popMany (count : Nat) : (m.popMany count).2.frames = m.frames := rfl

@[simp] theorem frames_unary (f : Value → Value) : (m.unary f).frames = m.frames := by
  simp only [unary, frames_next, frames_push, frames_pop]

@[simp] theorem frames_binary (f : Value → Value → Value) : (m.binary f).frames = m.frames := by
  simp only [binary, frames_next, frames_push, frames_popTwo]

/-- A condition on the top value holds alike. -/
theorem topIsTrue_above (h : 1 ≤ m.stack.length) : (m.above b).topIsTrue = m.topIsTrue := by
  obtain ⟨pc, stack, frames, output, autoescape, modes⟩ := m
  obtain ⟨v, rest, rfl⟩ := List.exists_cons_of_length_pos h
  rfl

/-- Frames that are changed alike, behind the next instruction. -/
theorem withFrames_above {fs fs' : Frames} (h : fs' = fs.above b.outermost) :
    ({ m.above b with frames := fs' } : Machine).next = ({ m with frames := fs }.next).above b := by
  subst h
  rfl

/-- A machine that may close a frame has one on top of another. -/
theorem Traced.Balanced.exists_frames {t : Traced} {code : Code} {base : Nat}
    (h : t.Balanced code base) (hbase : 0 < base) (hpushers : t.pushers ≠ []) :
    ∃ f g rest, t.machine.frames = f :: g :: rest := by
  have hlength := h.frames
  have hpos := List.length_pos_iff.mpr hpushers
  obtain ⟨f, rest, hf⟩ := List.exists_cons_of_length_pos (by omega : 0 < t.machine.frames.length)
  rw [hf, List.length_cons] at hlength
  obtain ⟨g, rest, rfl⟩ := List.exists_cons_of_length_pos (by omega : 0 < rest.length)
  exact ⟨f, g, rest, hf⟩

/-- A machine whose innermost frame loops, on top of another, has the position of its loop. -/
theorem Traced.Loops.exists_loop {t : Traced} (h : t.Loops) {f g : Frame} {rest : Frames}
    (hframes : t.machine.frames = f :: g :: rest) : ∃ l, f.loop? = some l := by
  obtain ⟨f', rest', hframes', hloop⟩ := h
  obtain ⟨rfl, -⟩ := List.cons.inj (hframes.symm.trans hframes')
  exact Option.isSome_iff_exists.mp hloop

/-- A machine in balance carries out its next instruction on top of something as it does alone. -/
theorem execute_above {t : Traced} {base : Nat} {i : Instruction} (hcarries : b.Carries inner outer)
    (hstands : Frames.StandsFor Q b.outermost) (houtermost : t.machine.frames.Outermost Q)
    (hbalanced : t.Balanced inner.code base) (hbase : 0 < base)
    (hcalls : b.CallsAlike inner outer t.machine)
    (hfetch : t.machine.fetch? inner.code = some i) :
    (t.machine.above b).execute outer.linked outer.invoke outer.code (i.shifted b.shift) =
      (t.machine.execute inner.linked inner.invoke inner.code i).map fun m => m.above b := by
  obtain ⟨htakes, hallows⟩ := hbalanced.running i hfetch
  have hne := houtermost.ne_nil
  cases i with
  | emitRaw text =>
    simp only [Instruction.shifted, execute, write_above]
    rfl
  | emit =>
    simp only [Instruction.shifted, execute, pop_above htakes, write_above]
    rfl
  | storeLocal name =>
    have hstore := (Frames.store_above hstands houtermost name t.machine.pop.1).1
    rw [← frames_pop (m := t.machine)] at hstore
    simp only [Instruction.shifted, execute, pop_above htakes]
    exact congrArg Except.ok (withFrames_above hstore)
  | lookup name =>
    have hload := Frames.load_above hstands houtermost name
    simp only [Instruction.shifted, execute]
    exact congrArg (fun v => Except.ok ((t.machine.above b).push v).next) hload
  | getAttr name | not => exact congrArg Except.ok (unary_above htakes _)
  | getItem | eq | ne | gt | ge | lt | le | concat | within =>
    exact congrArg Except.ok (binary_above htakes _)
  | loadConst v => rfl
  | buildMap pairs =>
    have hpop : (t.machine.above b).popMany (pairedCount pairs) = _ := popMany_above htakes
    simp only [Instruction.shifted, execute, hpop]
    rfl
  | buildList count =>
    have hpop : (t.machine.above b).popMany count = _ := popMany_above htakes
    simp only [Instruction.shifted, execute, hpop]
    rfl
  | add | sub | mul | div | rem => exact arithmetic_above htakes _
  | neg =>
    simp only [Instruction.shifted, execute, pop_above htakes]
    cases t.machine.pop.1.neg <;> rfl
  | applyFilter filter args => exact applyFilter_above hcarries hfetch htakes
  | call args => exact call_above htakes hcalls hfetch
  | pushFrame =>
    simp only [Instruction.shifted, execute, pushFrame_above hne]
    rfl
  | pushContext isolated =>
    simp only [Instruction.shifted, execute, pop_above htakes]
    exact congrArg (fun m => Except.ok m.next) (pushFrame_above (frames_pop ▸ hne) _)
  | popFrame =>
    obtain ⟨f, g, rest, hframes⟩ := hbalanced.exists_frames hbase hallows
    have hrest : Frames.Outermost Q (g :: rest) :=
      Frames.outermost_cons_cons.mp (hframes ▸ houtermost)
    have hpop := Frames.pop_above (f := f) hstands hrest
    rw [← hframes] at hpop
    exact congrArg Except.ok (withFrames_above hpop)
  | pushLoop =>
    simp only [Instruction.shifted, execute, pop_above htakes]
    exact congrArg (fun m => Except.ok m.next) (pushFrame_above (frames_pop ▸ hne) _)
  | iterate target =>
    obtain ⟨hloops, first, rest, hpushers, -⟩ := hallows
    obtain ⟨f, g, rest', hframes⟩ :=
      hbalanced.exists_frames hbase (hpushers ▸ List.cons_ne_nil first rest)
    obtain ⟨l, hl⟩ := hloops.exists_loop hframes
    exact iterate_above hframes hl
  | pushDidNotIterate =>
    obtain ⟨hloops, first, rest, hpushers, -⟩ := hallows
    obtain ⟨f, g, rest', hframes⟩ :=
      hbalanced.exists_frames hbase (hpushers ▸ List.cons_ne_nil first rest)
    obtain ⟨l, hl⟩ := hloops.exists_loop hframes
    have hloop : Frames.currentLoop? (t.machine.above b).frames =
        Frames.currentLoop? t.machine.frames := by
      simp only [above, hframes, Frames.above, Frames.currentLoop?, List.findSome?_cons, hl]
    simp only [Instruction.shifted, execute, hloop]
    rfl
  | jump target => rfl
  | jumpIfFalse target =>
    simp only [Instruction.shifted, execute, pop_above htakes]
    cases t.machine.pop.1.isTrue <;> rfl
  | jumpIfFalseOrPop target | jumpIfTrueOrPop target =>
    simp only [Instruction.shifted, execute, topIsTrue_above htakes, pop_above htakes]
    cases t.machine.topIsTrue <;> rfl
  | pushAutoEscape =>
    simp only [Instruction.shifted, execute, pop_above htakes]
    rfl
  | popAutoEscape =>
    obtain ⟨mode, rest, hmodes⟩ := List.exists_cons_of_ne_nil hallows
    have habove : (t.machine.above b).modes = mode :: (rest ++ b.modes) := by
      simp only [above, hmodes, List.cons_append]
    simp only [Instruction.shifted, execute, hmodes, habove]
    rfl
  | beginCapture => rfl
  | endCapture =>
    have hend : (b.output.above t.machine.output).endCapture t.machine.autoescape = _ :=
      Output.above_endCapture hallows t.machine.autoescape
    simp only [Instruction.shifted, execute]
    exact congrArg (fun e : Value × Output =>
      Except.ok (({ t.machine.above b with output := e.2 } : Machine).push e.1).next) hend
  | buildMacro id =>
    have hname := hcarries.macros id
    simp only [Instruction.shifted, execute]
    cases hinner : inner.linked.program.macros[id]? with
    | none =>
      rw [hinner] at hname
      simp only [Option.map_eq_none_iff.mp hname]
      rfl
    | some decl =>
      rw [hinner] at hname
      obtain ⟨decl', hdecl', hname⟩ := Option.map_eq_some_iff.mp hname
      simp only [hdecl', hname]
      rfl
  | discardTop =>
    simp only [Instruction.shifted, execute, pop_above htakes]
    rfl

/-- An operator that may fail leaves the frames. -/
theorem frames_arithmetic {f : Value → Value → Result Value} {m' : Machine}
    (h : m.arithmetic f = .ok m') : m'.frames = m.frames := by
  simp only [arithmetic] at h
  split at h
  · simp [← Except.ok.inj h]
  · simp at h

/-- The outermost frame keeps its property. -/
theorem outermost_execute {t : Traced} {base : Nat} {i : Instruction} {m' : Machine}
    (hstands : Frames.StandsFor Q b.outermost) (houtermost : t.machine.frames.Outermost Q)
    (hbalanced : t.Balanced inner.code base) (hbase : 0 < base)
    (hfetch : t.machine.fetch? inner.code = some i)
    (h : t.machine.execute inner.linked inner.invoke inner.code i = .ok m') :
    m'.frames.Outermost Q := by
  obtain ⟨-, hallows⟩ := hbalanced.running i hfetch
  cases i with
  | storeLocal name =>
    simp only [execute, Except.ok.injEq] at h
    subst h
    simpa using (Frames.store_above hstands houtermost name t.machine.pop.1).2
  | pushFrame | pushContext _ | pushLoop =>
    simp only [execute, Except.ok.injEq] at h
    subst h
    simpa [pushFrame] using houtermost.cons _
  | popFrame =>
    obtain ⟨f, g, rest, hframes⟩ := hbalanced.exists_frames hbase hallows
    obtain rfl := Except.ok.inj h
    simp only [frames_next, hframes, Frames.pop]
    exact Frames.outermost_cons_cons.mp (hframes ▸ houtermost)
  | iterate target =>
    obtain ⟨hloops, first, rest, hpushers, -⟩ := hallows
    obtain ⟨f, g, rest', hframes⟩ :=
      hbalanced.exists_frames hbase (hpushers ▸ List.cons_ne_nil first rest)
    obtain ⟨l, hl⟩ := hloops.exists_loop hframes
    rcases Traced.iterate_eq_ok hframes hl h with rfl | ⟨visit, l', f', -, -, rfl⟩
    · exact houtermost
    · exact (Frames.outermost_cons_cons.mp (hframes ▸ houtermost)).cons f'
  | add | sub | mul | div | rem => exact frames_arithmetic h ▸ houtermost
  | neg =>
    simp only [execute] at h
    split at h
    · simpa [← Except.ok.inj h] using houtermost
    · simp at h
  | applyFilter filter args =>
    simp only [execute, applyFilter] at h
    split at h
    · simp [fail] at h
    · split at h
      · simpa [← Except.ok.inj h] using houtermost
      · simp at h
  | call args =>
    simp only [execute, call] at h
    split at h
    · simpa [← Except.ok.inj h] using houtermost
    · simp at h
  | popAutoEscape =>
    simp only [execute] at h
    split at h <;> simpa [← Except.ok.inj h] using houtermost
  | buildMacro id =>
    simp only [execute] at h
    split at h
    · simp [fail] at h
    · simpa [← Except.ok.inj h] using houtermost
  | jumpIfFalse target | jumpIfFalseOrPop target | jumpIfTrueOrPop target =>
    simp only [execute, Except.ok.injEq] at h
    subst h
    split <;> simpa using houtermost
  | _ =>
    simp only [execute, Except.ok.injEq] at h
    subst h
    simpa [comparison] using houtermost

/-- A machine in balance takes its next step on top of something as it does alone, also if that
fails. -/
theorem step?_above {t : Traced} {base : Nat} (hcarries : b.Carries inner outer)
    (hstands : Frames.StandsFor Q b.outermost) (houtermost : t.machine.frames.Outermost Q)
    (hbalanced : t.Balanced inner.code base) (hbase : 0 < base)
    (hcalls : b.CallsAlike inner outer t.machine) {i : Instruction}
    (hfetch : t.machine.fetch? inner.code = some i) :
    (t.machine.above b).step? outer.linked outer.invoke outer.code =
      (t.machine.step? inner.linked inner.invoke inner.code).map
        fun r => r.map fun m => m.above b := by
  have hcode : (t.machine.above b).fetch? outer.code = some (i.shifted b.shift) :=
    hcarries.code hfetch
  have hexecute := execute_above hcarries hstands houtermost hbalanced hbase hcalls hfetch
  have hlocate (e : Error) : locateError outer.linked outer.code (t.machine.above b).pc e =
      locateError inner.linked inner.code t.machine.pc e := by
    simp only [locateError, above, hcarries.location hfetch]
  simp only [step?, hcode, hfetch, Option.map_some, advance, hexecute, hlocate]
  cases t.machine.execute inner.linked inner.invoke inner.code i <;> rfl

/-- What a machine on top of something needs to take its next step as it does alone: it stands in
the stretch of code, and a call has the same result. -/
structure Below.Suits (b : Below) (inner : Setting) (outer : Stretch) (m : Machine) : Prop where
  within : ∀ {i}, m.fetch? inner.code = some i →
    outer.first ≤ b.shift + m.pc ∧ b.shift + m.pc < outer.last
  calls : b.CallsAlike inner outer.toSetting m

/-- Lockstep on top of two things goes back along steps in balance, as far as the machine on top
suits both. -/
theorem hereditary_lockstep {b' : Below} {outer outer' : Stretch} {base : Nat}
    {A : Machine → Prop} {Last : Machine → Machine → Prop} (hbase : 0 < base)
    (hcarries : b.Carries inner outer.toSetting) (hcarries' : b'.Carries inner outer'.toSetting)
    (hstands : Frames.StandsFor Q b.outermost) (hstands' : Frames.StandsFor Q b'.outermost)
    (hsteps : ∀ {m m'}, A m → m.step? inner.linked inner.invoke inner.code = some (.ok m') →
      outer.Steps (m.above b) (m'.above b) → A m')
    (hsuits : ∀ {t : Traced}, t.Balanced inner.code base → A t.machine →
      t.machine.frames.Outermost Q →
        b.Suits inner outer t.machine ∧ b'.Suits inner outer' t.machine) :
    Traced.Hereditary inner base fun t => A t.machine → t.machine.frames.Outermost Q →
      Lockstep outer outer' Last (t.machine.above b) (t.machine.above b') := by
  intro t i hfetch hbalanced hnext hA houtermost
  obtain ⟨hsuit, hsuit'⟩ := hsuits hbalanced hA houtermost
  obtain ⟨hfirst, hlast⟩ := hsuit.within hfetch
  obtain ⟨hfirst', hlast'⟩ := hsuit'.within hfetch
  have hstep := step?_above hcarries hstands houtermost hbalanced hbase hsuit.calls hfetch
  have hstep' := step?_above hcarries' hstands' houtermost hbalanced hbase hsuit'.calls hfetch
  have hinner : t.machine.step? inner.linked inner.invoke inner.code =
      some (t.machine.advance inner.linked inner.invoke inner.code i) := by
    simp only [step?, hfetch, Option.map_some]
  cases hadvance : t.machine.advance inner.linked inner.invoke inner.code i with
  | error e =>
    rw [hinner, hadvance] at hstep hstep'
    exact .stop ⟨hfirst, hlast, hstep⟩ ⟨hfirst', hlast', hstep'⟩
  | ok m' =>
    have hexecute : t.machine.execute inner.linked inner.invoke inner.code i = .ok m' := by
      simp only [advance] at hadvance
      split at hadvance
      · exact Except.ok.inj hadvance ▸ ‹_›
      · simp at hadvance
    rw [hinner, hadvance] at hstep hstep'
    have htaken : outer.Steps (t.machine.above b) (m'.above b) := ⟨hfirst, hlast, hstep⟩
    refine .step htaken ⟨hfirst', hlast', hstep'⟩
      (hnext (t.after i m') ⟨i, m', hfetch, hadvance, rfl⟩ ?_ ?_)
    · exact hsteps hA (hinner.trans (congrArg some hadvance)) htaken
    · exact outermost_execute hstands houtermost hbalanced hbase hfetch hexecute

end Machine

end Templating
