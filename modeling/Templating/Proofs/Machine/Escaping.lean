import Templating.Proofs.Filter.Markup
import Templating.Proofs.Machine.Safety

/-!
# Machines that let no markup through

A machine is clean if escaping is on, all the values it holds are harmless, and no tag begins in
what it has written or captured. Nearly every instruction leaves a clean machine clean. The only
ones that do not by themselves turn escaping off to write what a filter made of captured output;
between the capture and the end of that construction the machine is followed instruction by
instruction.

Runs may be endless, so code is said to stay clean if every run through it ends clean provided that
runs from its end do. Loops need an induction on the number of steps that are left.
-/

namespace Templating

/-- The variables of a frame are harmless, and so are the pairs its loop has still to visit. -/
structure Frame.Harmless (f : Frame) : Prop where
  locals : ∀ e ∈ f.locals, e.2.Harmless
  context : f.context.Harmless
  loop : ∀ l ∈ f.loop?, ∀ p ∈ l.remaining, p.1.Harmless ∧ p.2.Harmless

namespace Frame.Harmless

variable {f : Frame} {v : Value}

/-- A frame without variables. -/
theorem empty : Frame.Harmless {} := ⟨by simp, Value.inert_undefined, by simp⟩

/-- A variable of the frame. -/
theorem get? (h : f.Harmless) {name : String} (hv : f.get? name = some v) : v.Harmless := by
  unfold Frame.get? at hv
  split at hv
  · rename_i w hlocal
    exact Option.some.inj hv ▸ h.locals _ (Entries.mem_of_get? hlocal)
  · split at hv
    · rename_i entries hcontext
      have hentries := Value.inert_map.mp (hcontext ▸ h.context)
      exact (hentries _ (Entries.mem_of_get? hv)).2
    · simp at hv

/-- A harmless value is stored. -/
theorem store (h : f.Harmless) (name : String) (hv : v.Harmless) : (f.store name v).Harmless :=
  ⟨fun e he => (Entries.mem_insert he).elim (h.locals e) fun heq => heq ▸ hv, h.context, h.loop⟩

end Frame.Harmless

/-- All frames are harmless. -/
def Frames.Harmless (fs : Frames) : Prop := ∀ f ∈ fs, f.Harmless

namespace Frames.Harmless

variable {fs : Frames} {v : Value}

/-- A frame is pushed. -/
theorem cons {f : Frame} (hf : f.Harmless) (h : fs.Harmless) : Frames.Harmless (f :: fs) :=
  List.forall_mem_cons.mpr ⟨hf, h⟩

/-- A variable is looked up. -/
theorem load (h : fs.Harmless) (name : String) : (fs.load name).Harmless := by
  induction fs with
  | nil => exact Value.inert_undefined
  | cons f rest ih =>
    obtain ⟨hf, hrest⟩ := List.forall_mem_cons.mp h
    unfold Frames.load
    split
    · rename_i hv
      exact hf.get? hv
    · split
      · exact Value.inert_undefined
      · exact ih hrest

/-- A harmless value is stored. -/
theorem store (h : fs.Harmless) (name : String) (hv : v.Harmless) :
    (fs.store name v).Harmless := by
  cases fs with
  | nil => exact h
  | cons f rest =>
    obtain ⟨hf, hrest⟩ := List.forall_mem_cons.mp h
    exact cons (hf.store name hv) hrest

/-- The innermost frame is dropped. -/
theorem pop (h : fs.Harmless) : fs.pop.Harmless := by
  unfold Frames.pop
  split
  · exact h
  · exact h
  · exact (List.forall_mem_cons.mp h).2

/-- The innermost loop moves on to pairs it had to visit anyway. -/
theorem setLoop (h : fs.Harmless) {l : LoopState}
    (hl : ∀ p ∈ l.remaining, p.1.Harmless ∧ p.2.Harmless) : (fs.setLoop l).Harmless := by
  induction fs with
  | nil => exact h
  | cons f rest ih =>
    obtain ⟨hf, hrest⟩ := List.forall_mem_cons.mp h
    unfold Frames.setLoop
    split
    · exact cons ⟨hf.locals, hf.context, fun _ hsome => Option.some.inj hsome ▸ hl⟩ hrest
    · exact cons hf (ih hrest)

/-- The pairs the innermost loop has to visit. -/
theorem currentLoop (h : fs.Harmless) {l : LoopState} (hl : fs.currentLoop? = some l) :
    ∀ p ∈ l.remaining, p.1.Harmless ∧ p.2.Harmless := by
  obtain ⟨f, hf, hloop⟩ := List.exists_of_findSome?_eq_some hl
  exact (h f hf).loop l hloop

/-- The outermost frame without its loop. -/
theorem root (h : fs.Harmless) : fs.root.snapshot.Harmless := by
  have hroot : fs.root.Harmless := by
    unfold Frames.root
    cases hlast : fs.getLast? with
    | none => exact .empty
    | some f => exact h f (List.mem_of_getLast? hlast)
  exact ⟨hroot.locals, hroot.context, by simp [Frame.snapshot]⟩

end Frames.Harmless

/-- Calls with harmless arguments, while escaping is on, give harmless values. -/
def Invocation.Harmless (invoke : Invocation) : Prop :=
  ∀ ⦃callee : Value⦄ ⦃args : List Value⦄ ⦃frames : Frames⦄ ⦃v : Value⦄,
    (∀ a ∈ args, a.Harmless) → frames.Harmless → invoke callee args frames true = .ok v → v.Harmless

/-- The instruction writes no markup of its own, and applies no filter that makes some. -/
def Instruction.Harmless (linked : LinkedProgram) : Instruction → Prop
  | .emitRaw text => Text.Inert text.toList
  | .loadConst v => v.Harmless
  | .applyFilter filter _ => ∀ f, linked.filters[filter]? = some f → f.Keeps false
  | .pushAutoEscape => False
  | .popAutoEscape => False
  | _ => True

namespace Machine

/-- Escaping is on, the values the machine holds are harmless, and no tag begins in what it
wrote. -/
structure Clean (m : Machine) : Prop where
  escapes : m.autoescape = true
  stack : ∀ v ∈ m.stack, v.Harmless
  frames : m.frames.Harmless
  text : Text.Inert m.output.text.toList
  captures : ∀ c ∈ m.output.captures, Text.Inert c.toList

variable {linked : LinkedProgram} {invoke : Invocation} {code : Code} {m m' : Machine} {v : Value}

/-- A value is written without markup if it is harmless and escaping is on. -/
theorem inert_valueText (h : v.Harmless) : Text.Inert (Output.valueText v true).toList := by
  unfold Output.valueText
  split
  · exact Text.inert_escapeString _
  · rename_i hsafe
    cases v with
    | text s safe =>
      obtain rfl : safe = true := by simpa [Value.isSafe] using hsafe
      exact Value.inert_text.mp h rfl
    | _ => simp [Value.isSafe] at hsafe

/-- Text without markup is written. -/
theorem inert_write {o : Output} {s : String} (htext : Text.Inert o.text.toList)
    (hcaptures : ∀ c ∈ o.captures, Text.Inert c.toList) (hs : Text.Inert s.toList) :
    Text.Inert (o.write s).text.toList ∧ ∀ c ∈ (o.write s).captures, Text.Inert c.toList := by
  obtain ⟨text, captures⟩ := o
  cases captures with
  | nil => exact ⟨by simpa [Output.write] using ⟨htext, hs⟩, by simp [Output.write]⟩
  | cons c rest =>
    obtain ⟨hc, hrest⟩ := List.forall_mem_cons.mp hcaptures
    refine ⟨htext, List.forall_mem_cons.mpr ⟨?_, hrest⟩⟩
    simpa using ⟨hc, hs⟩

namespace Clean

theorem next (h : m.Clean) : m.next.Clean := ⟨h.escapes, h.stack, h.frames, h.text, h.captures⟩

theorem goto (h : m.Clean) (target : Nat) : (m.goto target).Clean :=
  ⟨h.escapes, h.stack, h.frames, h.text, h.captures⟩

theorem push (h : m.Clean) (hv : v.Harmless) : (m.push v).Clean :=
  ⟨h.escapes, List.forall_mem_cons.mpr ⟨hv, h.stack⟩, h.frames, h.text, h.captures⟩

theorem withFrames (h : m.Clean) {fs : Frames} (hfs : fs.Harmless) :
    Clean { m with frames := fs } :=
  ⟨h.escapes, h.stack, hfs, h.text, h.captures⟩

theorem withStack (h : m.Clean) {stack : List Value} (hstack : stack ⊆ m.stack) :
    Clean { m with stack } :=
  ⟨h.escapes, fun v hv => h.stack v (hstack hv), h.frames, h.text, h.captures⟩

theorem pop (h : m.Clean) : m.pop.1.Harmless ∧ m.pop.2.Clean := by
  unfold Machine.pop
  split
  · exact ⟨Value.inert_undefined, h⟩
  · rename_i v rest hstack
    refine ⟨h.stack v (hstack ▸ List.mem_cons_self), h.withStack ?_⟩
    exact hstack ▸ List.subset_cons_self v rest

theorem popMany (h : m.Clean) (count : Nat) :
    (∀ v ∈ (m.popMany count).1, v.Harmless) ∧ (m.popMany count).2.Clean :=
  ⟨fun v hv => h.stack v (List.mem_of_mem_take (List.mem_reverse.mp hv)),
    h.withStack (List.drop_subset _ _)⟩

theorem write (h : m.Clean) {s : String} (hs : Text.Inert s.toList) : (m.write s).Clean := by
  obtain ⟨htext, hcaptures⟩ := inert_write h.text h.captures hs
  exact ⟨h.escapes, h.stack, h.frames, htext, hcaptures⟩

theorem pushFrame (h : m.Clean) {f : Frame} (hf : f.Harmless) : (m.pushFrame f).Clean :=
  h.withFrames (.cons hf h.frames)

/-- What was captured has no markup. -/
theorem endCapture (h : m.Clean) : (m.output.endCapture m.autoescape).1.Inert true ∧
    Clean { m with output := (m.output.endCapture m.autoescape).2 } := by
  unfold Output.endCapture
  split
  · exact ⟨Value.inert_undefined, h⟩
  · rename_i c rest hcaptures
    obtain ⟨hc, hrest⟩ := List.forall_mem_cons.mp (hcaptures ▸ h.captures)
    exact ⟨Value.inert_text.mpr fun _ => hc, h.escapes, h.stack, h.frames, h.text, hrest⟩

theorem unary (h : m.Clean) {f : Value → Value} (hf : ∀ {v}, v.Harmless → (f v).Harmless) :
    (m.unary f).Clean :=
  (h.pop.2.push (hf h.pop.1)).next

theorem binary (h : m.Clean) {f : Value → Value → Value}
    (hf : ∀ {a b}, a.Harmless → b.Harmless → (f a b).Harmless) : (m.binary f).Clean :=
  (h.pop.2.pop.2.push (hf h.pop.2.pop.1 h.pop.1)).next

theorem arithmetic (h : m.Clean) {f : Value → Value → Result Value}
    (hf : ∀ {a b w}, a.Harmless → b.Harmless → f a b = .ok w → w.Harmless)
    (hm : m.arithmetic f = .ok m') : m'.Clean := by
  simp only [Machine.arithmetic] at hm
  split at hm
  · rename_i w hw
    exact Except.ok.inj hm ▸ (h.pop.2.pop.2.push (hf h.pop.2.pop.1 h.pop.1 hw)).next
  · simp at hm

/-- A map is built of harmless values. -/
theorem pairUp {done : Entries} {vs : List Value} (hdone : ∀ e ∈ done, e.2.Harmless)
    (hvs : ∀ v ∈ vs, v.Harmless) : ∀ e ∈ Machine.pairUp done vs, e.2.Harmless := by
  induction done, vs using Machine.pairUp.induct with
  | case1 done key value rest ih =>
    rw [Machine.pairUp]
    refine ih (fun e he => ?_) fun v hv => hvs v (by simp [hv])
    exact (Entries.mem_insert he).elim (hdone e) fun heq => heq ▸ hvs value (by simp)
  | case2 done vs hshort =>
    rw [Machine.pairUp]
    · exact hdone
    · exact hshort

/-- The next pair of a loop. -/
theorem iterate (h : m.Clean) {target : Nat} (hm : m.iterate target = .ok m') : m'.Clean := by
  unfold Machine.iterate at hm
  split at hm
  · simp [fail] at hm
  · rename_i l hl
    have hpairs := h.frames.currentLoop hl
    split at hm
    · exact Except.ok.inj hm ▸ h.goto target
    · rename_i visit l' hnext
      unfold LoopState.next? at hnext
      split at hnext
      · simp at hnext
      · rename_i key value rest hremaining
        obtain ⟨rfl, rfl⟩ := Prod.mk.inj (Option.some.inj hnext)
        rw [hremaining] at hpairs
        obtain ⟨⟨hkey, hvalue⟩, hrest⟩ := List.forall_mem_cons.mp hpairs
        have hinfo : (l.info key).Harmless := by
          simp [LoopState.info, hkey]
        have hframes := (h.frames.setLoop (l := { l with remaining := rest, index := l.index + 1 })
          hrest).store "loop" hinfo
        exact Except.ok.inj hm ▸ (((h.withFrames hframes).push hkey).push hvalue).next

/-- A harmless instruction leaves a clean machine clean. -/
theorem execute (h : m.Clean) (hinvoke : invoke.Harmless) {i : Instruction}
    (hi : i.Harmless linked) (hm : m.execute linked invoke code i = .ok m') : m'.Clean := by
  cases i with
  | emitRaw text => exact Except.ok.inj hm ▸ (h.write hi).next
  | emit =>
    have htext := inert_valueText h.pop.1
    rw [← h.pop.2.escapes] at htext
    exact Except.ok.inj hm ▸ (h.pop.2.write htext).next
  | storeLocal name =>
    exact Except.ok.inj hm ▸ (h.pop.2.withFrames (h.pop.2.frames.store name h.pop.1)).next
  | lookup name => exact Except.ok.inj hm ▸ (h.push (h.frames.load name)).next
  | getAttr name => exact Except.ok.inj hm ▸ h.unary fun hv => hv.attr name
  | getItem => exact Except.ok.inj hm ▸ h.binary fun ha _ => ha.item _
  | loadConst v => exact Except.ok.inj hm ▸ (h.push hi).next
  | buildMap pairs =>
    obtain ⟨hitems, hrest⟩ := h.popMany (pairedCount pairs)
    refine Except.ok.inj hm ▸ (hrest.push (Value.inert_map.mpr fun e he => ⟨by simp, ?_⟩)).next
    exact pairUp (by simp) hitems e he
  | buildList count =>
    obtain ⟨hitems, hrest⟩ := h.popMany count
    exact Except.ok.inj hm ▸ (hrest.push (Value.inert_seq.mpr hitems)).next
  | add => exact h.arithmetic (fun ha hb hw => ha.add hb hw) hm
  | sub => exact h.arithmetic (fun _ _ hw => Value.inert_numeric hw) hm
  | mul => exact h.arithmetic (fun _ _ hw => Value.inert_numeric hw) hm
  | div => exact h.arithmetic (fun _ _ hw => Value.inert_div hw) hm
  | rem => exact h.arithmetic (fun _ _ hw => Value.inert_numeric hw) hm
  | neg =>
    simp only [Machine.execute] at hm
    split at hm
    · rename_i w hw
      exact Except.ok.inj hm ▸ (h.pop.2.push (Value.inert_neg hw)).next
    · simp at hm
  | eq => exact Except.ok.inj hm ▸ h.binary fun _ _ => Value.inert_bool
  | ne => exact Except.ok.inj hm ▸ h.binary fun _ _ => Value.inert_bool
  | gt => exact Except.ok.inj hm ▸ h.binary fun _ _ => Value.inert_bool
  | ge => exact Except.ok.inj hm ▸ h.binary fun _ _ => Value.inert_bool
  | lt => exact Except.ok.inj hm ▸ h.binary fun _ _ => Value.inert_bool
  | le => exact Except.ok.inj hm ▸ h.binary fun _ _ => Value.inert_bool
  | not => exact Except.ok.inj hm ▸ h.unary fun _ => Value.inert_bool
  | concat => exact Except.ok.inj hm ▸ h.binary fun _ _ => by simp [Value.concat]
  | within => exact Except.ok.inj hm ▸ h.binary fun _ _ => Value.inert_bool
  | applyFilter filter args =>
    obtain ⟨hargs, hrest⟩ := h.popMany args
    simp only [Machine.execute, Machine.applyFilter] at hm
    split at hm
    · simp [fail] at hm
    · rename_i f hf
      split at hm
      · rename_i w hw
        exact Except.ok.inj hm ▸ (hrest.pop.2.push (hi f hf hrest.pop.1 hargs hw)).next
      · simp at hm
  | call args =>
    obtain ⟨hargs, hrest⟩ := h.popMany args
    simp only [Machine.execute, Machine.call] at hm
    split at hm
    · rename_i w hw
      rw [h.escapes] at hw
      exact Except.ok.inj hm ▸ (hrest.pop.2.push (hinvoke hargs h.frames hw)).next
    · simp at hm
  | pushFrame => exact Except.ok.inj hm ▸ (h.pushFrame .empty).next
  | pushContext isolated =>
    exact Except.ok.inj hm ▸ (h.pop.2.pushFrame ⟨by simp, h.pop.1, by simp⟩).next
  | popFrame => exact Except.ok.inj hm ▸ (h.withFrames h.frames.pop).next
  | pushLoop =>
    refine Except.ok.inj hm ▸ (h.pop.2.pushFrame ⟨by simp, Value.inert_undefined, ?_⟩).next
    intro l hl
    exact Option.some.inj hl ▸ h.pop.1.pairs
  | iterate target => exact h.iterate hm
  | pushDidNotIterate => exact Except.ok.inj hm ▸ (h.push Value.inert_bool).next
  | jump target => exact Except.ok.inj hm ▸ h.goto target
  | jumpIfFalse target =>
    obtain rfl := Except.ok.inj hm
    change (if m.pop.1.isTrue then m.pop.2.next else m.pop.2.goto target).Clean
    split
    · exact h.pop.2.next
    · exact h.pop.2.goto target
  | jumpIfFalseOrPop target =>
    obtain rfl := Except.ok.inj hm
    split
    · exact h.pop.2.next
    · exact h.goto target
  | jumpIfTrueOrPop target =>
    obtain rfl := Except.ok.inj hm
    split
    · exact h.goto target
    · exact h.pop.2.next
  | pushAutoEscape => exact hi.elim
  | popAutoEscape => exact hi.elim
  | beginCapture =>
    obtain rfl := Except.ok.inj hm
    exact ⟨h.escapes, h.stack, h.frames, h.text,
      List.forall_mem_cons.mpr ⟨Text.inert_nil, h.captures⟩⟩
  | endCapture =>
    obtain ⟨hv, hrest⟩ := h.endCapture
    exact Except.ok.inj hm ▸ (hrest.push hv.harmless).next
  | buildMacro id =>
    simp only [Machine.execute] at hm
    split at hm
    · simp [fail] at hm
    · exact Except.ok.inj hm ▸ (h.push Value.inert_callable).next
  | discardTop => exact Except.ok.inj hm ▸ h.pop.2.next

end Clean

/-! ## Stretches of code -/

namespace Setting

variable {setting : Setting} {budget first middle last target : Nat} {i : Instruction}

/-- A run of at most so many steps ends clean, if it ends. -/
def EndsClean (setting : Setting) (budget : Nat) (m : Machine) : Prop :=
  ∀ m', m.runCode setting.linked setting.invoke setting.code budget = .ok m' → m'.Clean

/-- Runs from clean machines at one position end clean, provided that runs from clean machines at
another one do. -/
def StaysClean (setting : Setting) (first last : Nat) : Prop :=
  ∀ ⦃budget : Nat⦄ ⦃m : Machine⦄, m.Clean → m.pc = first →
    (∀ b ≤ budget, ∀ m' : Machine, m'.Clean → m'.pc = last → setting.EndsClean b m') →
      setting.EndsClean budget m

/-- A clean machine behind the last instruction ends as it is. -/
theorem endsClean_of_end (hcode : setting.code.instructions[m.pc]? = none) (h : m.Clean) :
    setting.EndsClean budget m := by
  intro m' hrun
  cases budget with
  | zero => simp [runCode, fail] at hrun
  | succ budget =>
    simp only [runCode, fetch?, hcode] at hrun
    exact Except.ok.inj hrun ▸ h

/-- A run ends clean if it does so behind its first instruction. -/
theorem endsClean_of_execute (hcode : setting.code.instructions[m.pc]? = some i)
    (h : ∀ b < budget, ∀ m', m.execute setting.linked setting.invoke setting.code i = .ok m' →
      setting.EndsClean b m') : setting.EndsClean budget m := by
  intro m' hrun
  cases budget with
  | zero => simp [runCode, fail] at hrun
  | succ budget =>
    simp only [runCode, fetch?, hcode, advance] at hrun
    split at hrun
    · rename_i hadvance
      split at hadvance
      · rename_i hexecute
        obtain rfl := Except.ok.inj hadvance
        exact h budget (Nat.lt_succ_self budget) _ hexecute m' hrun
      · simp at hadvance
    · simp at hrun

namespace StaysClean

/-- There is nothing to do. -/
theorem refl : setting.StaysClean first first := fun budget m hm hpc hend =>
  hend budget (Nat.le_refl budget) m hm hpc

/-- One stretch of code after the other. -/
theorem trans (h : setting.StaysClean first middle) (h' : setting.StaysClean middle last) :
    setting.StaysClean first last := by
  intro budget m hm hpc hend
  refine h hm hpc fun b hb m' hm' hpc' => h' hm' hpc' fun b' hb' => ?_
  exact hend b' (Nat.le_trans hb' hb)

/-- A harmless instruction, wherever it leads. -/
theorem step (hinvoke : setting.invoke.Harmless) (hi : i.Harmless setting.linked)
    (hcode : setting.code.instructions[first]? = some i)
    (h : ∀ next ∈ i.successors first, setting.StaysClean next last) :
    setting.StaysClean first last := by
  intro budget m hm hpc hend
  refine endsClean_of_execute (hpc ▸ hcode) fun b hb m' hexecute => ?_
  have hnext := pc_execute hexecute
  rw [hpc] at hnext
  exact h _ hnext (hm.execute hinvoke hi hexecute) rfl fun b' hb' =>
    hend b' (Nat.le_trans hb' (Nat.le_of_lt hb))

/-- A harmless instruction that goes on to the next position. -/
theorem single (hinvoke : setting.invoke.Harmless) (hi : i.Harmless setting.linked)
    (hcode : setting.code.instructions[first]? = some i)
    (hsuccessors : i.successors first = [first + 1]) : setting.StaysClean first (first + 1) := by
  refine step hinvoke hi hcode fun next hnext => ?_
  rw [hsuccessors] at hnext
  exact List.mem_singleton.mp hnext ▸ refl

/-- A jump. -/
theorem jump (hinvoke : setting.invoke.Harmless)
    (hcode : setting.code.instructions[first]? = some (.jump target)) :
    setting.StaysClean first target := by
  refine step (i := .jump target) hinvoke trivial hcode fun next hnext => ?_
  exact List.mem_singleton.mp hnext ▸ refl

/-- A jump that may not be taken. -/
theorem choice (hinvoke : setting.invoke.Harmless)
    (hsuccessors : i.successors first = [first + 1, target]) (hi : i.Harmless setting.linked)
    (hcode : setting.code.instructions[first]? = some i)
    (hnext : setting.StaysClean (first + 1) last) (htarget : setting.StaysClean target last) :
    setting.StaysClean first last := by
  refine step hinvoke hi hcode fun next h => ?_
  rw [hsuccessors, List.mem_cons, List.mem_singleton] at h
  rcases h with rfl | rfl
  · exact hnext
  · exact htarget

/-- A loop, from its iteration to where it is left. The induction is on the number of steps, since
the loop comes back to its iteration. -/
theorem loop (hinvoke : setting.invoke.Harmless)
    (hiterate : setting.code.instructions[first]? = some (.iterate last))
    (hbody : setting.StaysClean (first + 1) middle)
    (hback : setting.code.instructions[middle]? = some (.jump first)) :
    setting.StaysClean first last := by
  intro budget
  induction budget using Nat.strong_induction_on with
  | h budget ih =>
    intro m hm hpc hend
    refine endsClean_of_execute (hpc ▸ hiterate) fun b hb m₁ hexecute => ?_
    have hm₁ := hm.execute (i := .iterate last) hinvoke trivial hexecute
    have hnext := pc_execute hexecute
    rw [hpc, Instruction.successors, List.mem_cons, List.mem_singleton] at hnext
    rcases hnext with hpc₁ | hpc₁
    · refine hbody hm₁ hpc₁ fun b₂ hb₂ m₂ hm₂ hpc₂ => ?_
      refine jump hinvoke hback hm₂ hpc₂ fun b₃ hb₃ m₃ hm₃ hpc₃ => ?_
      exact ih b₃ (by omega) hm₃ hpc₃ fun b₄ hb₄ => hend b₄ (by omega)
    · exact hend b (Nat.le_of_lt hb) m₁ hm₁ hpc₁

end StaysClean

/-- Constants are put on the stack one after the other. -/
theorem endsClean_of_constants {constants : List Value}
    (hcode : setting.code.Holds m.pc (constants.map .loadConst))
    (h : ∀ b ≤ budget, setting.EndsClean b
      (m.moved (m.pc + constants.length) (constants.reverse ++ m.stack))) :
    setting.EndsClean budget m := by
  induction constants generalizing budget m with
  | nil => exact h budget (Nat.le_refl budget)
  | cons v rest ih =>
    obtain ⟨hfirst, hrest⟩ := hcode.of_cons
    refine endsClean_of_execute hfirst fun b hb m' hexecute => ?_
    obtain rfl := Except.ok.inj hexecute
    refine ih hrest fun b' hb' => ?_
    have hend := h b' (Nat.le_trans hb' (Nat.le_of_lt hb))
    rw [List.reverse_cons, List.append_assoc, List.length_cons, Nat.add_comm rest.length,
      ← Nat.add_assoc] at hend
    exact hend

/-- The end of a capture, and a filter applied to the captured output and constants, whose result is
written as it is: no markup comes of it unless the filter or the constants have some. -/
theorem StaysClean.filtered {constants : List Value} {filter : Nat}
    (hcode : setting.code.Holds first (.endCapture :: (constants.map .loadConst ++
      [.applyFilter filter constants.length, .loadConst (.bool false), .pushAutoEscape, .emit,
        .popAutoEscape])))
    (hconstants : ∀ v ∈ constants, v.Inert true)
    (hfilter : ∀ f, setting.linked.filters[filter]? = some f → f.Keeps true) :
    setting.StaysClean first (first + constants.length + 6) := by
  rintro budget m hm rfl hend
  obtain ⟨hstop, hcode⟩ := hcode.of_cons
  obtain ⟨hloads, hcode⟩ := hcode.of_append
  rw [List.length_map] at hcode
  obtain ⟨hcall, hcode⟩ := hcode.of_cons
  obtain ⟨hoff, hcode⟩ := hcode.of_cons
  obtain ⟨hpush, hcode⟩ := hcode.of_cons
  obtain ⟨hwrite, hcode⟩ := hcode.of_cons
  obtain ⟨hpop, -⟩ := hcode.of_cons
  obtain ⟨subject, output, hcapture⟩ : ∃ subject output,
      m.output.endCapture m.autoescape = (subject, output) := ⟨_, _, rfl⟩
  obtain ⟨hsubject, hrest⟩ := hm.endCapture
  rw [hcapture] at hsubject hrest
  refine endsClean_of_execute hstop fun b₁ hb₁ m₁ hexecute => ?_
  simp only [execute, hcapture] at hexecute
  obtain rfl := Except.ok.inj hexecute
  refine endsClean_of_constants hloads fun b₂ hb₂ => ?_
  refine endsClean_of_execute hcall fun b₃ hb₃ m₃ hexecute => ?_
  cases hf : setting.linked.filters[filter]? with
  | none => simp [execute, applyFilter, hf, fail] at hexecute
  | some f =>
    have hexecute := (execute_applyFilter (m := { m with output }) hf subject constants).symm.trans
      hexecute
    obtain ⟨w, hw, rfl⟩ := Result.map_eq_ok.mp hexecute
    have hresult : Text.Inert w.display.toList := (hfilter f hf hsubject hconstants hw).display
    obtain ⟨htext, hcaptures⟩ := inert_write hrest.text hrest.captures hresult
    -- the value is written with escaping turned off, and escaping is on again behind it
    refine endsClean_of_execute hoff fun b₄ hb₄ m₄ hexecute => ?_
    obtain rfl := Except.ok.inj hexecute
    refine endsClean_of_execute hpush fun b₅ hb₅ m₅ hexecute => ?_
    obtain rfl := Except.ok.inj hexecute
    refine endsClean_of_execute hwrite fun b₆ hb₆ m₆ hexecute => ?_
    obtain rfl := Except.ok.inj hexecute
    refine endsClean_of_execute hpop fun b₇ hb₇ m₇ hexecute => ?_
    obtain rfl := Except.ok.inj hexecute
    refine hend b₇ (by omega) _ ⟨hm.escapes, hm.stack, hm.frames, htext, hcaptures⟩ ?_
    change m.pc + 1 + constants.length + 1 + 1 + 1 + 1 + 1 = m.pc + constants.length + 6
    omega

end Setting

end Machine

end Templating
