import Templating.Proofs.Machine.Balance

/-!
# Structured code is safe

Each construction of structured code, run from its beginning, is safe as long as what follows is
safe when everything around the construction was kept. The same holds of every property that goes
back along steps in balance, so it is shown for all of them at once. The induction follows the shape
of the code. A loop needs a second induction, on the pairs it has still to visit, since it comes
back to its beginning with one less.
-/

namespace Templating

/-- The code has some instructions at a position. -/
def Code.Holds (code : Code) (first : Nat) (instructions : List Instruction) : Prop :=
  ∀ ⦃k : Nat⦄ ⦃i : Instruction⦄, instructions[k]? = some i →
    code.instructions[first + k]? = some i

namespace Code.Holds

variable {code : Code} {first : Nat} {i : Instruction} {front back : List Instruction}

/-- Instructions that follow others are there behind them. -/
theorem of_append (h : code.Holds first (front ++ back)) :
    code.Holds first front ∧ code.Holds (first + front.length) back := by
  constructor
  · intro k i hi
    refine h ?_
    rwa [List.getElem?_append_left (List.getElem?_eq_some_iff.mp hi).1]
  · intro k i hi
    rw [Nat.add_assoc]
    refine h ?_
    rwa [List.getElem?_append_right (Nat.le_add_right _ _), Nat.add_sub_cancel_left]

/-- The instruction in front, and those behind it. -/
theorem of_cons (h : code.Holds first (i :: back)) :
    code.instructions[first]? = some i ∧ code.Holds (first + 1) back := by
  have hsplit : code.Holds first ([i] ++ back) := h
  exact ⟨@h 0 i rfl, hsplit.of_append.2⟩

/-- An instruction, a body and another instruction, and where they end. -/
theorem of_enclosed {j : Instruction} (h : code.Holds first (i :: front ++ [j])) :
    code.instructions[first]? = some i ∧ code.Holds (first + 1) front ∧
      code.instructions[first + 1 + front.length]? = some j ∧
      first + 1 + front.length + 1 = first + (i :: front ++ [j]).length := by
  obtain ⟨hopen, hrest⟩ := of_cons h
  obtain ⟨hfront, hclose⟩ := hrest.of_append
  refine ⟨hopen, hfront, hclose.of_cons.1, ?_⟩
  simp only [List.length_append, List.length_cons, List.length_nil]
  omega

end Code.Holds

namespace Machine.Traced

variable {setting : Setting} {base p c target : Nat} {t t' t'' : Traced} {below : List Value}
  {P : Traced → Prop}

/-- The machine has the frames it started with and its own, and it started with some. -/
structure Framed (base : Nat) (t : Traced) : Prop where
  base_pos : 0 < base
  length_eq : t.machine.frames.length = base + t.pushers.length

/-- There is an innermost frame. -/
theorem Framed.exists_frame (h : t.Framed base) : ∃ f rest, t.machine.frames = f :: rest :=
  Traced.exists_frame h.length_eq h.base_pos

/-- What keeps everything keeps the frames. -/
theorem Framed.of_keeps (h : t.Framed base) (hkeeps : t.Keeps t') : t'.Framed base :=
  ⟨h.base_pos, hkeeps.framed h.length_eq⟩

/-- The machine with its top value written out. -/
theorem At.eq_moved (h : t.At p 1 below) : ∃ v, t.machine = t.machine.moved p (v :: below) := by
  obtain ⟨top, hstack, htop⟩ := h.stack
  obtain ⟨v, rfl⟩ := List.length_eq_one_iff.mp htop
  refine ⟨v, ?_⟩
  rw [← h.pc, ← List.singleton_append, ← hstack]
  rfl

/-- Going on elsewhere with another stack keeps everything. -/
theorem Framed.keeps_moved (h : t.Framed base) {i : Instruction}
    (hpushers : pushersAfter i t.machine.pc t.pushers = t.pushers) (pc : Nat) (stack : List Value) :
    t.Keeps (t.after i (t.machine.moved pc stack)) := by
  obtain ⟨f, rest, hframes⟩ := h.exists_frame
  exact ⟨hpushers, ⟨f, f, rest, hframes, hframes, rfl⟩, rfl, rfl, rfl⟩

/-- What holds at the target of a jump holds at the jump. -/
theorem jump_hereditary (hP : Hereditary setting base P)
    (hcode : setting.code.instructions[p]? = some (.jump target))
    (hat : t.At p c below) (hframed : t.Framed base)
    (hnext : ∀ t', t'.At target c below → t.Keeps t' → P t') :
    P t := by
  refine hP.of_execute (i := .jump target) (hat.pc ▸ hcode) hframed.length_eq (Nat.zero_le _)
    trivial fun m hm => ?_
  obtain rfl : t.machine.moved target t.machine.stack = m := Except.ok.inj hm
  obtain ⟨top, hstack, htop⟩ := hat.stack
  exact hnext _ ⟨rfl, top, hstack, htop⟩ (hframed.keeps_moved rfl _ _)

/-- What holds at the target of a conditional jump and behind it holds at the jump. -/
theorem jumpIfFalse_hereditary (hP : Hereditary setting base P)
    (hcode : setting.code.instructions[p]? = some (.jumpIfFalse target))
    (hat : t.At p 1 below) (hframed : t.Framed base)
    (hyes : ∀ t', t'.At (p + 1) 0 below → t.Keeps t' → P t')
    (hno : ∀ t', t'.At target 0 below → t.Keeps t' → P t') :
    P t := by
  refine hP.of_execute (i := .jumpIfFalse target) (hat.pc ▸ hcode) hframed.length_eq hat.takes_le
    trivial fun m hm => ?_
  obtain ⟨v, hv⟩ := hat.eq_moved
  rw [hv] at hm
  have hm :
      (if v.isTrue then t.machine.moved (p + 1) below else t.machine.moved target below) = m :=
    Except.ok.inj hm
  split at hm
  · subst hm
    exact hyes _ ⟨rfl, [], rfl, rfl⟩ (hframed.keeps_moved rfl _ _)
  · subst hm
    exact hno _ ⟨rfl, [], rfl, rfl⟩ (hframed.keeps_moved rfl _ _)

/-- What holds at the target of a jump that may drop the top value and behind it holds at the
jump. -/
theorem shortcut_hereditary (hP : Hereditary setting base P) {jump : Nat → Instruction}
    (hjump : jump = .jumpIfFalseOrPop ∨ jump = .jumpIfTrueOrPop)
    (hcode : setting.code.instructions[p]? = some (jump target))
    (hat : t.At p 1 below) (hframed : t.Framed base)
    (hdrop : ∀ t', t'.At (p + 1) 0 below → t.Keeps t' → P t')
    (hleave : ∀ t', t'.At target 1 below → t.Keeps t' → P t') :
    P t := by
  obtain ⟨o, ho⟩ : ∃ o : BinaryOp, o.shortcut? = some jump := by
    rcases hjump with rfl | rfl
    · exact ⟨.and, rfl⟩
    · exact ⟨.or, rfl⟩
  have hpushers : pushersAfter (jump target) t.machine.pc t.pushers = t.pushers := by
    rcases hjump with rfl | rfl <;> rfl
  have htakes : (jump target).takes ≤ t.machine.stack.length := by
    rcases hjump with rfl | rfl <;> exact hat.takes_le
  have hallows : t.Allows setting.code (jump target) := by
    rcases hjump with rfl | rfl <;> trivial
  refine hP.of_execute (hat.pc ▸ hcode) hframed.length_eq htakes hallows fun m hm => ?_
  obtain ⟨v, hv⟩ := hat.eq_moved
  rw [hv, execute_shortcut ho] at hm
  have hm := Except.ok.inj hm
  split at hm
  · subst hm
    exact hleave _ ⟨rfl, [v], rfl, rfl⟩ (hframed.keeps_moved hpushers _ _)
  · subst hm
    exact hdrop _ ⟨rfl, [], rfl, rfl⟩ (hframed.keeps_moved hpushers _ _)

/-- One machine runs in a frame that was pushed at a position over the frames of another. -/
structure Inside (t t' : Traced) (first : Nat) : Prop where
  pushers : t'.pushers = first :: t.pushers
  frames : ∃ f, t'.machine.frames = f :: t.machine.frames
  autoescape : t'.machine.autoescape = t.machine.autoescape
  modes : t'.machine.modes = t.machine.modes
  captures : t'.machine.output.captures.length = t.machine.output.captures.length

/-- What keeps everything stays in the frame. -/
theorem Inside.of_keeps {first : Nat} (h : t.Inside t' first) (hkeeps : t'.Keeps t'') :
    t.Inside t'' first where
  pushers := hkeeps.pushers.trans h.pushers
  frames := by
    obtain ⟨f, hf⟩ := h.frames
    obtain ⟨g, g', rest, hg, hg', _⟩ := hkeeps.frames
    obtain ⟨rfl, rfl⟩ := List.cons.inj (hf.symm.trans hg)
    exact ⟨g', hg'⟩
  autoescape := hkeeps.autoescape.trans h.autoescape
  modes := hkeeps.modes.trans h.modes
  captures := hkeeps.captures.trans h.captures

/-- There is one frame more. -/
theorem Inside.framed {first : Nat} (h : t.Inside t' first) (hframed : t.Framed base) :
    t'.Framed base := by
  obtain ⟨f, hf⟩ := h.frames
  refine ⟨hframed.base_pos, ?_⟩
  rw [hf, h.pushers, List.length_cons, List.length_cons, hframed.length_eq, Nat.add_assoc]

/-- What holds behind the end of a frame, where the outer machine goes on, holds at its end. -/
theorem popFrame_hereditary (hP : Hereditary setting base P) {first : Nat}
    (hcode : setting.code.instructions[p]? = some .popFrame)
    (hinside : t.Inside t' first) (hat : t'.At p c below) (hframed : t.Framed base)
    (hnext : ∀ t'', t''.At (p + 1) c below → t.Keeps t'' → P t'') :
    P t' := by
  have hallows : t'.pushers ≠ [] := by
    rw [hinside.pushers]
    exact List.cons_ne_nil _ _
  refine hP.of_execute (i := .popFrame) (hat.pc ▸ hcode) (hinside.framed hframed).length_eq
    (Nat.zero_le _) hallows fun m hm => ?_
  obtain rfl := Except.ok.inj hm
  obtain ⟨top, hstack, htop⟩ := hat.stack
  obtain ⟨f, hf⟩ := hinside.frames
  obtain ⟨g, rest, hg⟩ := hframed.exists_frame
  refine hnext _ ⟨congrArg Nat.succ hat.pc, top, hstack, htop⟩ ⟨?_, ?_,
    hinside.autoescape, hinside.modes, hinside.captures⟩
  · change t'.pushers.tail = t.pushers
    rw [hinside.pushers, List.tail_cons]
  · refine ⟨g, g, rest, hg, ?_, rfl⟩
    change Frames.pop t'.machine.frames = g :: rest
    rw [hf, hg]
    rfl

/-- What holds inside of a frame holds where the frame is pushed. -/
theorem pushFrame_hereditary (hP : Hereditary setting base P) {i : Instruction}
    (hi : i = .pushFrame ∨ (∃ isolated, i = .pushContext isolated) ∨ i = .pushLoop)
    (hcode : setting.code.instructions[p]? = some i) (hat : t.At p i.takes below)
    (hframed : t.Framed base)
    (hnext : ∀ t', t'.At (p + 1) 0 below → t.Inside t' p → (i = .pushLoop → t'.Loops) →
      P t') : P t := by
  have hallows : t.Allows setting.code i := by
    rcases hi with rfl | ⟨_, rfl⟩ | rfl <;> trivial
  refine hP.of_execute (hat.pc ▸ hcode) hframed.length_eq hat.takes_le hallows fun m hm => ?_
  have hpc : t.machine.pc + 1 = p + 1 := congrArg Nat.succ hat.pc
  obtain ⟨⟨pc, stack, frames, output, autoescape, modes⟩, pushers⟩ := t
  obtain ⟨top, hstack, htop⟩ := hat.stack
  obtain rfl : pc = p := hat.pc
  obtain rfl : stack = top ++ below := hstack
  rcases hi with rfl | ⟨_, rfl⟩ | rfl
  · obtain rfl := List.eq_nil_of_length_eq_zero htop
    obtain rfl := Except.ok.inj hm
    exact hnext _ ⟨rfl, [], rfl, rfl⟩ ⟨rfl, ⟨_, rfl⟩, rfl, rfl, rfl⟩ (fun h => by simp at h)
  · obtain ⟨v, rfl⟩ := List.length_eq_one_iff.mp htop
    obtain rfl := Except.ok.inj hm
    exact hnext _ ⟨rfl, [], rfl, rfl⟩ ⟨rfl, ⟨_, rfl⟩, rfl, rfl, rfl⟩ (fun h => by simp at h)
  · obtain ⟨v, rfl⟩ := List.length_eq_one_iff.mp htop
    obtain rfl := Except.ok.inj hm
    exact hnext _ ⟨rfl, [], rfl, rfl⟩ ⟨rfl, ⟨_, rfl⟩, rfl, rfl, rfl⟩ fun _ => ⟨_, _, rfl, rfl⟩

/-- From one position to another, with so many values taken and left: what goes back along steps
holds at the beginning if it holds at the end, when everything was kept. -/
def Leads (setting : Setting) (base first last a b : Nat) : Prop :=
  ∀ ⦃P : Traced → Prop⦄, Hereditary setting base P → ∀ ⦃t : Traced⦄ ⦃below : List Value⦄,
    t.At first a below → t.Framed base → (∀ t', t'.At last b below → t.Keeps t' → P t') → P t

/-- An instruction that goes on to the next position. -/
theorem leads_single {i : Instruction} (hgives : i.gives? = some c)
    (hcode : setting.code.instructions[p]? = some i) :
    Leads setting base p (p + 1) i.takes c := by
  intro P hP t below hat hframed hnext
  refine hP.of_execute (hat.pc ▸ hcode) hframed.length_eq hat.takes_le (allows_of_gives hgives)
    fun m hm => ?_
  obtain ⟨hat', hkeeps⟩ := keeps_of_execute hgives hat hframed.length_eq hframed.base_pos hm
  exact hnext _ hat' hkeeps

/-- One stretch after the other. -/
theorem Leads.trans {first middle last a b : Nat} (h : Leads setting base first middle a b)
    (h' : Leads setting base middle last b c) : Leads setting base first last a c := by
  intro P hP t below hat hframed hnext
  refine h hP hat hframed fun t' hat' hkeeps => ?_
  refine h' hP hat' (hframed.of_keeps hkeeps) fun t'' hat'' hkeeps' => ?_
  exact hnext t'' hat'' (hkeeps.trans hkeeps')

/-- Values further down are left alone. -/
theorem Leads.above {first last a b : Nat} (h : Leads setting base first last a b) (count : Nat) :
    Leads setting base first last (a + count) (b + count) := by
  intro P hP t below hat hframed hnext
  obtain ⟨top, hstack, htop⟩ := hat.stack
  have hsplit : t.machine.stack = top.take a ++ (top.drop a ++ below) := by
    rw [← List.append_assoc, List.take_append_drop, hstack]
  refine h hP ⟨hat.pc, _, hsplit, by rw [List.length_take]; omega⟩ hframed fun t' hat' hkeeps => ?_
  obtain ⟨top', hstack', htop'⟩ := hat'.stack
  refine hnext t' ⟨hat'.pc, top' ++ top.drop a, ?_, ?_⟩ hkeeps
  · rw [hstack', List.append_assoc]
  · rw [List.length_append, List.length_drop]
    omega

/-- A frame around a body. -/
theorem leads_scope {i : Instruction} {last : Nat}
    (hi : i = .pushFrame ∨ (∃ isolated, i = .pushContext isolated) ∨ i = .pushLoop)
    (hopen : setting.code.instructions[p]? = some i)
    (hclose : setting.code.instructions[last]? = some .popFrame)
    (hbody : Leads setting base (p + 1) last 0 0) :
    Leads setting base p (last + 1) i.takes 0 := by
  intro P hP t below hat hframed hnext
  refine pushFrame_hereditary hP hi hopen hat hframed fun t₁ hat₁ hinside _ => ?_
  refine hbody hP hat₁ (hinside.framed hframed) fun t₂ hat₂ hkeeps => ?_
  exact popFrame_hereditary hP hclose (hinside.of_keeps hkeeps) hat₂ hframed hnext

/-- An escaping mode around a body. -/
theorem leads_mode {a last : Nat} (hopen : setting.code.instructions[p]? = some .pushAutoEscape)
    (hclose : setting.code.instructions[last]? = some .popAutoEscape)
    (hbody : Leads setting base (p + 1) last a 0) :
    Leads setting base p (last + 1) (a + 1) 0 := by
  intro P hP t below hat hframed hnext
  refine hP.of_execute (i := .pushAutoEscape) (hat.pc ▸ hopen) hframed.length_eq
    (Nat.le_trans (Nat.le_add_left 1 a) hat.takes_le) trivial fun m hm => ?_
  obtain ⟨top, hstack, htop⟩ := hat.stack
  obtain ⟨v, top, rfl⟩ := List.exists_cons_of_length_eq_add_one htop
  obtain ⟨f, rest, hframes⟩ := hframed.exists_frame
  simp only [execute, pop, hstack, List.cons_append, Except.ok.injEq] at hm
  subst hm
  refine hbody hP ⟨congrArg Nat.succ hat.pc, top, rfl, Nat.succ.inj htop⟩
    ⟨hframed.base_pos, hframed.length_eq⟩ fun t₂ hat₂ hkeeps => ?_
  have hmodes : t₂.machine.modes = t.machine.autoescape :: t.machine.modes := hkeeps.modes
  have hallows : t₂.machine.modes ≠ [] := by
    rw [hmodes]
    exact List.cons_ne_nil _ _
  refine hP.of_execute (i := .popAutoEscape) (hat₂.pc ▸ hclose) (hkeeps.framed hframed.length_eq)
    (Nat.zero_le _) hallows fun m hm => ?_
  simp only [execute, hmodes, Except.ok.injEq] at hm
  subst hm
  exact hnext _ ⟨congrArg Nat.succ hat₂.pc, hat₂.stack⟩
    ⟨hkeeps.pushers, hkeeps.frames, rfl, rfl, hkeeps.captures⟩

/-- A capture around a body. -/
theorem leads_capture {last : Nat} (hopen : setting.code.instructions[p]? = some .beginCapture)
    (hclose : setting.code.instructions[last]? = some .endCapture)
    (hbody : Leads setting base (p + 1) last 0 0) : Leads setting base p (last + 1) 0 1 := by
  intro P hP t below hat hframed hnext
  refine hP.of_execute (i := .beginCapture) (hat.pc ▸ hopen) hframed.length_eq (Nat.zero_le _)
    trivial fun m hm => ?_
  obtain rfl := Except.ok.inj hm
  refine hbody hP ⟨congrArg Nat.succ hat.pc, hat.stack⟩ ⟨hframed.base_pos, hframed.length_eq⟩
    fun t₂ hat₂ hkeeps => ?_
  have hlength : t₂.machine.output.captures.length = t.machine.output.captures.length + 1 :=
    hkeeps.captures
  obtain ⟨capture, rest, hcaptures⟩ := List.exists_cons_of_length_eq_add_one hlength
  have hallows : t₂.machine.output.captures ≠ [] := by
    rw [hcaptures]
    exact List.cons_ne_nil _ _
  refine hP.of_execute (i := .endCapture) (hat₂.pc ▸ hclose) (hkeeps.framed hframed.length_eq)
    (Nat.zero_le _) hallows fun m hm => ?_
  simp only [execute, Output.endCapture, hcaptures, Except.ok.injEq] at hm
  subst hm
  obtain ⟨top, hstack, htop⟩ := hat₂.stack
  obtain rfl := List.eq_nil_of_length_eq_zero htop
  refine hnext _ ⟨congrArg Nat.succ hat₂.pc, [_], congrArg (List.cons _) hstack, rfl⟩
    ⟨hkeeps.pushers, hkeeps.frames, hkeeps.autoescape, hkeeps.modes, ?_⟩
  rw [hcaptures] at hlength
  exact Nat.succ.inj hlength

/-- The innermost frame loops, at a position. -/
def LoopsAt (t : Traced) (l : LoopState) : Prop :=
  ∃ f rest, t.machine.frames = f :: rest ∧ f.loop? = some l

/-- A frame that loops does so at a position. -/
theorem Loops.exists_loopsAt (h : t.Loops) : ∃ l, t.LoopsAt l := by
  obtain ⟨f, rest, hframes, hloop⟩ := h
  obtain ⟨l, hl⟩ := Option.isSome_iff_exists.mp hloop
  exact ⟨l, f, rest, hframes, hl⟩

/-- What loops at a position loops. -/
theorem LoopsAt.loops {l : LoopState} (h : t.LoopsAt l) : t.Loops := by
  obtain ⟨f, rest, hframes, hloop⟩ := h
  exact ⟨f, rest, hframes, hloop ▸ rfl⟩

/-- What keeps everything keeps the position of the loop of the innermost frame. -/
theorem Keeps.loopsAt {l : LoopState} (h : t.Keeps t') (hloops : t.LoopsAt l) : t'.LoopsAt l := by
  obtain ⟨f, rest, hf, hloop⟩ := hloops
  obtain ⟨g, g', rest', hg, hg', hsame⟩ := h.frames
  obtain ⟨rfl, rfl⟩ := List.cons.inj (hf.symm.trans hg)
  exact ⟨g', rest, hg', hsame.trans hloop⟩

/-- The loop behind the next pair has one pair less to visit. -/
theorem remaining_of_next? {l l' : LoopState} {visit : Visit} (h : l.next? = some (visit, l')) :
    ∃ pair, l.remaining = pair :: l'.remaining := by
  unfold LoopState.next? at h
  split at h
  · simp at h
  · rename_i key value rest hremaining
    obtain ⟨-, rfl⟩ := Prod.mk.inj (Option.some.inj h)
    exact ⟨(key, value), hremaining⟩

/-- What an iteration does in a frame that loops: it leaves the loop, or goes on with a key and a
value on the stack and the loop of the frame moved on. -/
theorem iterate_eq_ok {m m' : Machine} {f : Frame} {rest : Frames} {l : LoopState}
    (hframes : m.frames = f :: rest) (hloop : f.loop? = some l) (h : m.iterate target = .ok m') :
    m' = m.goto target ∨ ∃ (visit : Visit) (l' : LoopState) (f' : Frame),
      l.next? = some (visit, l') ∧ f'.loop? = some l' ∧
        m' = { m with
          pc := m.pc + 1
          stack := visit.value :: visit.key :: m.stack
          frames := f' :: rest } := by
  have hcurrent : Frames.currentLoop? m.frames = some l := by
    simp [hframes, Frames.currentLoop?, hloop]
  simp only [iterate, hcurrent] at h
  split at h
  · exact .inl (Except.ok.inj h).symm
  · rename_i visit l' hnext
    refine .inr ⟨visit, l', Frame.store { f with loop? := some l' } "loop" visit.info, hnext, rfl,
      ?_⟩
    rw [← Except.ok.inj h]
    simp [push, next, hframes, Frames.setLoop, hloop, Frames.store]

/-- What holds where a loop is left, and in its body with the loop moved on, holds at its
iteration. -/
theorem iteration_hereditary (hP : Hereditary setting base P) {last : Nat}
    (hpush : setting.code.instructions[p]? = some .pushLoop)
    (hiterate : setting.code.instructions[p + 1]? = some (.iterate (last + 1)))
    (hframed : t.Framed base) {l : LoopState} (hat : t'.At (p + 1) 0 below)
    (hinside : t.Inside t' p) (hloops : t'.LoopsAt l)
    (hleave : ∀ t'', t''.At (last + 1) 0 below → t.Inside t'' p → t''.Loops → P t'')
    (hbody : ∀ t'' l', (∃ pair, l.remaining = pair :: l'.remaining) → t''.At (p + 2) 2 below →
      t.Inside t'' p → t''.LoopsAt l' → P t'') : P t' := by
  have hallows : t'.Allows setting.code (.iterate (last + 1)) :=
    ⟨hloops.loops, p, t.pushers, hinside.pushers, hat.pc.symm, hpush⟩
  refine hP.of_execute (hat.pc ▸ hiterate) (hinside.framed hframed).length_eq (Nat.zero_le _)
    hallows fun m hm => ?_
  obtain ⟨f, rest, hframes, hloop⟩ := hloops
  obtain ⟨f₀, hf₀⟩ := hinside.frames
  obtain ⟨rfl, rfl⟩ := List.cons.inj (hframes.symm.trans hf₀)
  rcases iterate_eq_ok hframes hloop hm with rfl | ⟨visit, l', f', hnext, hloop', rfl⟩
  · exact hleave _ ⟨rfl, hat.stack⟩
      ⟨hinside.pushers, hinside.frames, hinside.autoescape, hinside.modes, hinside.captures⟩
      ⟨f, _, hframes, hloop ▸ rfl⟩
  · obtain ⟨top, hstack, htop⟩ := hat.stack
    obtain rfl := List.eq_nil_of_length_eq_zero htop
    refine hbody _ l' (remaining_of_next? hnext) ⟨congrArg Nat.succ hat.pc,
      [visit.value, visit.key], ?_, rfl⟩
      ⟨hinside.pushers, ⟨f', rfl⟩, hinside.autoescape, hinside.modes, hinside.captures⟩
      ⟨f', _, rfl, hloop'⟩
    exact congrArg (fun stack => visit.value :: visit.key :: stack) hstack

/-- What holds where a loop is left holds at its iteration. The induction is on the pairs that the
loop has still to visit, since the loop comes back here with one pair less. -/
theorem loop_hereditary (hP : Hereditary setting base P) {last : Nat}
    (hpush : setting.code.instructions[p]? = some .pushLoop)
    (hiterate : setting.code.instructions[p + 1]? = some (.iterate (last + 1)))
    (hbody : Leads setting base (p + 2) last 2 0)
    (hback : setting.code.instructions[last]? = some (.jump (p + 1))) (hframed : t.Framed base)
    {l : LoopState} (hat : t'.At (p + 1) 0 below) (hinside : t.Inside t' p) (hloops : t'.LoopsAt l)
    (hnext : ∀ t'', t''.At (last + 1) 0 below → t.Inside t'' p → t''.Loops → P t'') : P t' := by
  induction hremaining : l.remaining generalizing t' l with
  | nil =>
    refine iteration_hereditary hP hpush hiterate hframed hat hinside hloops hnext
      fun t₁ l₁ hless => ?_
    obtain ⟨pair, hpair⟩ := hless
    simp [hremaining] at hpair
  | cons pair pairs ih =>
    refine iteration_hereditary hP hpush hiterate hframed hat hinside hloops hnext
      fun t₁ l₁ hless hat₁ hinside₁ hloops₁ => ?_
    obtain ⟨_, hpair⟩ := hless
    have hrest : l₁.remaining = pairs := by
      rw [hremaining] at hpair
      exact (List.cons.inj hpair).2.symm
    have hframed₁ := hinside₁.framed hframed
    refine hbody hP hat₁ hframed₁ fun t₂ hat₂ hkeeps => ?_
    refine jump_hereditary hP hback hat₂ (hframed₁.of_keeps hkeeps) fun t₃ hat₃ hkeeps' => ?_
    exact ih hat₃ ((hinside₁.of_keeps hkeeps).of_keeps hkeeps')
      (hkeeps'.loopsAt (hkeeps.loopsAt hloops₁)) hrest

/-- A loop over the top value. -/
theorem leads_loop {last : Nat} (hpush : setting.code.instructions[p]? = some .pushLoop)
    (hiterate : setting.code.instructions[p + 1]? = some (.iterate (last + 1)))
    (hbody : Leads setting base (p + 2) last 2 0)
    (hback : setting.code.instructions[last]? = some (.jump (p + 1)))
    (hclose : setting.code.instructions[last + 1]? = some .popFrame) :
    Leads setting base p (last + 2) 1 0 := by
  intro P hP t below hat hframed hnext
  refine pushFrame_hereditary hP (.inr (.inr rfl)) hpush hat hframed
    fun t₁ hat₁ hinside hloops => ?_
  obtain ⟨l, hl⟩ := (hloops rfl).exists_loopsAt
  refine loop_hereditary hP hpush hiterate hbody hback hframed hat₁ hinside hl
    fun t₂ hat₂ hinside₂ _ => ?_
  exact popFrame_hereditary hP hclose hinside₂ hat₂ hframed hnext

/-- A loop that also leaves whether it had nothing to visit. -/
theorem leads_loopOrElse {last : Nat} (hpush : setting.code.instructions[p]? = some .pushLoop)
    (hiterate : setting.code.instructions[p + 1]? = some (.iterate (last + 1)))
    (hbody : Leads setting base (p + 2) last 2 0)
    (hback : setting.code.instructions[last]? = some (.jump (p + 1)))
    (hmissed : setting.code.instructions[last + 1]? = some .pushDidNotIterate)
    (hclose : setting.code.instructions[last + 2]? = some .popFrame) :
    Leads setting base p (last + 3) 1 1 := by
  intro P hP t below hat hframed hnext
  refine pushFrame_hereditary hP (.inr (.inr rfl)) hpush hat hframed
    fun t₁ hat₁ hinside hloops => ?_
  obtain ⟨l, hl⟩ := (hloops rfl).exists_loopsAt
  refine loop_hereditary hP hpush hiterate hbody hback hframed hat₁ hinside hl
    fun t₂ hat₂ hinside₂ hloops₂ => ?_
  have hallows : t₂.Allows setting.code .pushDidNotIterate :=
    ⟨hloops₂, p, t.pushers, hinside₂.pushers, hpush, hat₂.pc ▸ hiterate⟩
  refine hP.of_execute (hat₂.pc ▸ hmissed) (hinside₂.framed hframed).length_eq (Nat.zero_le _)
    hallows fun m hm => ?_
  obtain rfl := Except.ok.inj hm
  obtain ⟨top, hstack, htop⟩ := hat₂.stack
  obtain rfl := List.eq_nil_of_length_eq_zero htop
  exact popFrame_hereditary (t := t) (c := 1) hP hclose
    ⟨hinside₂.pushers, hinside₂.frames, hinside₂.autoescape, hinside₂.modes, hinside₂.captures⟩
    ⟨congrArg Nat.succ hat₂.pc, [_], congrArg (List.cons _) hstack, rfl⟩ hframed hnext

/-- Structured code leads from its beginning to its end. -/
theorem leads_of_structured {a b : Nat} {code : List Instruction} (h : Structured p code a b)
    (hcode : setting.code.Holds p code) : Leads setting base p (p + code.length) a b := by
  induction h with
  | nil =>
    intro P hP t below hat hframed hnext
    obtain ⟨f, rest, hframes⟩ := hframed.exists_frame
    exact hnext t hat (.refl hframes)
  | append _ _ ihfirst ihsecond =>
    obtain ⟨hfirst, hsecond⟩ := hcode.of_append
    rw [List.length_append, ← Nat.add_assoc]
    exact (ihfirst hfirst).trans (ihsecond hsecond)
  | single hgives => exact leads_single hgives hcode.of_cons.1
  | above below _ ih => exact (ih hcode).above below
  | @shortcut p jump right hjump _ ih =>
    obtain ⟨hjumpAt, hright⟩ := hcode.of_cons
    intro P hP t below hat hframed hnext
    rw [List.length_cons, ← Nat.add_assoc, Nat.add_right_comm] at hnext
    refine shortcut_hereditary hP hjump hjumpAt hat hframed (fun t₁ hat₁ hkeeps => ?_) hnext
    exact ih hright hP hat₁ (hframed.of_keeps hkeeps) fun t₂ hat₂ hkeeps' =>
      hnext t₂ hat₂ (hkeeps.trans hkeeps')
  | @skipped p code _ _ =>
    intro P hP t below hat hframed hnext
    rw [List.length_cons, ← Nat.add_assoc, Nat.add_right_comm] at hnext
    exact jump_hereditary hP hcode.of_cons.1 hat hframed hnext
  | @guarded p yes _ ih =>
    obtain ⟨hjumpAt, hyes⟩ := hcode.of_cons
    intro P hP t below hat hframed hnext
    rw [List.length_cons, ← Nat.add_assoc, Nat.add_right_comm] at hnext
    refine jumpIfFalse_hereditary hP hjumpAt hat hframed (fun t₁ hat₁ hkeeps => ?_) hnext
    exact ih hyes hP hat₁ (hframed.of_keeps hkeeps) fun t₂ hat₂ hkeeps' =>
      hnext t₂ hat₂ (hkeeps.trans hkeeps')
  | @branch p yes no _ _ ihyes ihno =>
    obtain ⟨hfront, hback⟩ := hcode.of_append
    obtain ⟨hjumpAt, hyes⟩ := hfront.of_cons
    rw [List.length_cons, ← Nat.add_assoc, Nat.add_right_comm] at hback
    obtain ⟨hskipAt, hno⟩ := hback.of_cons
    intro P hP t below hat hframed hnext
    have hlength : p + (.jumpIfFalse (p + 1 + yes.length + 1) :: yes ++
        Instruction.jump (p + 1 + yes.length + 1 + no.length) :: no).length =
          p + 1 + yes.length + 1 + no.length := by
      simp only [List.length_append, List.length_cons]
      omega
    rw [hlength] at hnext
    refine jumpIfFalse_hereditary hP hjumpAt hat hframed (fun t₁ hat₁ hkeeps => ?_)
      fun t₁ hat₁ hkeeps => ?_
    · refine ihyes hyes hP hat₁ (hframed.of_keeps hkeeps) fun t₂ hat₂ hkeeps₂ => ?_
      have hkeeps₂ := hkeeps.trans hkeeps₂
      exact jump_hereditary hP hskipAt hat₂ (hframed.of_keeps hkeeps₂) fun t₃ hat₃ hkeeps₃ =>
        hnext t₃ hat₃ (hkeeps₂.trans hkeeps₃)
    · exact ihno hno hP hat₁ (hframed.of_keeps hkeeps) fun t₂ hat₂ hkeeps₂ =>
        hnext t₂ hat₂ (hkeeps.trans hkeeps₂)
  | @loop p body _ ih =>
    obtain ⟨hfront, hback⟩ := hcode.of_append
    obtain ⟨hpush, hfront⟩ := hfront.of_cons
    obtain ⟨hiterate, hbody⟩ := hfront.of_cons
    have hlength : p + (Instruction.pushLoop ::
        .iterate (p + 2 + body.length + 1) :: body).length = p + 2 + body.length := by
      simp only [List.length_cons]
      omega
    rw [hlength] at hback
    obtain ⟨hjump, hback⟩ := hback.of_cons
    rw [List.length_append, ← Nat.add_assoc, hlength]
    exact leads_loop hpush hiterate (ih hbody) hjump hback.of_cons.1
  | @loopOrElse p body _ ih =>
    obtain ⟨hfront, hback⟩ := hcode.of_append
    obtain ⟨hpush, hfront⟩ := hfront.of_cons
    obtain ⟨hiterate, hbody⟩ := hfront.of_cons
    have hlength : p + (Instruction.pushLoop ::
        .iterate (p + 2 + body.length + 1) :: body).length = p + 2 + body.length := by
      simp only [List.length_cons]
      omega
    rw [hlength] at hback
    obtain ⟨hjump, hback⟩ := hback.of_cons
    obtain ⟨hmissed, hback⟩ := hback.of_cons
    rw [List.length_append, ← Nat.add_assoc, hlength]
    exact leads_loopOrElse hpush hiterate (ih hbody) hjump hmissed hback.of_cons.1
  | scope _ ih =>
    obtain ⟨hopen, hbody, hclose, hlength⟩ := hcode.of_enclosed
    exact hlength ▸ leads_scope (.inl rfl) hopen hclose (ih hbody)
  | contextScope _ ih =>
    obtain ⟨hopen, hbody, hclose, hlength⟩ := hcode.of_enclosed
    exact hlength ▸ leads_scope (.inr (.inl ⟨_, rfl⟩)) hopen hclose (ih hbody)
  | mode _ ih =>
    obtain ⟨hopen, hbody, hclose, hlength⟩ := hcode.of_enclosed
    exact hlength ▸ leads_mode hopen hclose (ih hbody)
  | capture _ ih =>
    obtain ⟨hopen, hbody, hclose, hlength⟩ := hcode.of_enclosed
    exact hlength ▸ leads_capture hopen hclose (ih hbody)

end Machine.Traced

end Templating
