import Mathlib.Data.List.Forall2
import Templating.Proofs.Machine.Above
import Templating.Proofs.Program.Scopes

/-!
# Scopes leave the frames below them

What an instruction may do to the frames is to push one, to pop one, to store a variable in the
innermost one, or to move on the innermost loop. In well-scoped code that touches only frames of
scopes that are open, and a scope is left through the instruction that closes it. So while a machine
is in a scope, the frames that it came with lie untouched below those of the scope, and they are
what is left behind it. Whatever else the machine holds has no part in this.
-/

namespace Templating

namespace Frames

/-- Only variables of the innermost frame have changed, if anything. -/
def Stores (fs fs' : Frames) : Prop :=
  ∃ f rest locals, fs = f :: rest ∧ fs' = { f with locals } :: rest

variable {fs fs' fs'' : Frames}

theorem Stores.refl (h : fs ≠ []) : fs.Stores fs := by
  obtain ⟨f, rest, rfl⟩ := List.exists_cons_of_ne_nil h
  exact ⟨f, rest, f.locals, rfl, rfl⟩

theorem Stores.trans (h : fs.Stores fs') (h' : fs'.Stores fs'') : fs.Stores fs'' := by
  obtain ⟨f, rest, locals, rfl, rfl⟩ := h
  obtain ⟨_, _, locals', heq, rfl⟩ := h'
  obtain ⟨rfl, rfl⟩ := List.cons.inj heq
  exact ⟨f, rest, locals', rfl, rfl⟩

/-- There still is an innermost frame. -/
theorem Stores.ne_nil (h : fs.Stores fs') : fs' ≠ [] := by
  obtain ⟨_, _, _, -, rfl⟩ := h
  exact List.cons_ne_nil _ _

end Frames

namespace Machine

/-- What an instruction may do to the frames. -/
inductive FrameEffect : Instruction → Frames → Frames → Prop
  | opens {i : Instruction} {fs : Frames} {f : Frame} : i.opensScope = true →
    (i = .pushLoop → f.loop?.isSome) → FrameEffect i fs (f :: fs)
  | closes {fs : Frames} : FrameEffect .popFrame fs fs.pop
  | stores {fs : Frames} {name : String} {v : Value} :
    FrameEffect (.storeLocal name) fs (fs.store name v)
  | visits {fs : Frames} {target : Nat} {l : LoopState} {name : String} {v : Value} :
    FrameEffect (.iterate target) fs ((fs.setLoop l).store name v)
  | keeps {i : Instruction} {fs : Frames} : i.opensScope = false → i ≠ .popFrame →
    FrameEffect i fs fs

@[simp] theorem frames_pushFrame (m : Machine) (f : Frame) :
    (m.pushFrame f).frames = f :: m.frames := rfl

/-- An instruction has one of these effects. -/
theorem frameEffect_execute {linked : LinkedProgram} {invoke : Invocation} {code : Code}
    {m m' : Machine} {i : Instruction} (h : m.execute linked invoke code i = .ok m') :
    FrameEffect i m.frames m'.frames := by
  have keeps (hopens : i.opensScope = false) (hcloses : i ≠ .popFrame)
      (hframes : m'.frames = m.frames) : FrameEffect i m.frames m'.frames := by
    rw [hframes]
    exact .keeps hopens hcloses
  cases i with
  | pushFrame => exact Except.ok.inj h ▸ .opens rfl (by simp)
  | pushContext isolated =>
    simp only [execute, Except.ok.injEq] at h
    subst h
    simpa using FrameEffect.opens (i := .pushContext isolated) rfl (by simp)
  | pushLoop =>
    simp only [execute, Except.ok.injEq] at h
    subst h
    simpa using FrameEffect.opens
      (f := { loop? := some (LoopState.ofValue m.pop.1) }) (i := .pushLoop) rfl fun _ => rfl
  | popFrame => exact Except.ok.inj h ▸ .closes
  | storeLocal name =>
    simp only [execute, Except.ok.injEq] at h
    subst h
    simpa using FrameEffect.stores
  | iterate target =>
    simp only [execute, iterate] at h
    split at h
    · simp [fail] at h
    · split at h
      · exact Except.ok.inj h ▸ .keeps rfl (by simp)
      · exact Except.ok.inj h ▸ .visits
  | add | sub | mul | div | rem => exact keeps rfl (by simp) (frames_arithmetic h)
  | neg =>
    simp only [execute] at h
    split at h
    · exact keeps rfl (by simp) (by simp [← Except.ok.inj h])
    · simp at h
  | applyFilter filter args =>
    simp only [execute, applyFilter] at h
    split at h
    · simp [fail] at h
    · split at h
      · exact keeps rfl (by simp) (by simp [← Except.ok.inj h])
      · simp at h
  | call args =>
    simp only [execute, call] at h
    split at h
    · exact keeps rfl (by simp) (by simp [← Except.ok.inj h])
    · simp at h
  | jumpIfFalse target | jumpIfFalseOrPop target | jumpIfTrueOrPop target =>
    simp only [execute, Except.ok.injEq] at h
    subst h
    refine keeps rfl (by simp) ?_
    split <;> simp
  | popAutoEscape =>
    refine keeps rfl (by simp) ?_
    simp only [execute] at h
    split at h <;> simp [← Except.ok.inj h]
  | buildMacro id =>
    simp only [execute] at h
    split at h
    · simp [fail] at h
    · exact keeps rfl (by simp) (by simp [← Except.ok.inj h])
  | _ =>
    simp only [execute, Except.ok.injEq] at h
    subst h
    exact keeps rfl (by simp) (by simp [comparison])

/-- The frames of scopes: those of loops loop. -/
def Owns (code : Code) : List Nat → Frames → Prop :=
  List.Forall₂ fun opener f => code.instructions[opener]? = some .pushLoop → f.loop?.isSome

section Effects

variable {code : Code} {pc : Nat} {i : Instruction} {scopes : List Nat} {own fs frames' : Frames}

/-- Storing a variable changes nothing but the variables of the innermost frame. -/
theorem Owns.store (h : Owns code scopes own) (hfs : fs ≠ []) (name : String) (v : Value) :
    ∃ own' fs', Frames.store (own ++ fs) name v = own' ++ fs' ∧ Owns code scopes own' ∧
      (fs' = fs ∨ scopes = [] ∧ fs.Stores fs') := by
  cases h with
  | nil =>
    obtain ⟨f, rest, rfl⟩ := List.exists_cons_of_ne_nil hfs
    exact ⟨[], f.store name v :: rest, rfl, .nil, .inr ⟨rfl, f, rest, _, rfl, rfl⟩⟩
  | @cons opener f openers rest hf hrest =>
    exact ⟨f.store name v :: rest, fs, rfl, .cons hf hrest, .inl rfl⟩

/-- Moving on the loop of the innermost scope changes nothing outside of it. -/
theorem Owns.setLoop {opener : Nat} (h : Owns code (opener :: scopes) own)
    (hopener : code.instructions[opener]? = some .pushLoop) (l : LoopState) :
    ∃ own', Frames.setLoop (own ++ fs) l = own' ++ fs ∧ Owns code (opener :: scopes) own' := by
  cases h with
  | @cons _ f _ rest hf hrest =>
    obtain ⟨l', hl'⟩ := Option.isSome_iff_exists.mp (hf hopener)
    refine ⟨{ f with loop? := some l } :: rest, ?_, .cons (fun _ => rfl) hrest⟩
    rw [List.cons_append, Frames.setLoop, hl', List.cons_append]

/-- An instruction that works in open scopes touches the frames of these only. If there are none, it
may store variables in the frame below, and does nothing else to it. -/
theorem FrameEffect.owns (h : FrameEffect i (own ++ fs) frames') (howns : Owns code scopes own)
    (hfs : fs ≠ []) (hcode : code.instructions[pc]? = some i)
    (hiterates : ∀ target, i = .iterate target →
      ∃ opener rest, scopes = opener :: rest ∧ code.instructions[opener]? = some .pushLoop)
    (hcloses : i = .popFrame → scopes ≠ []) :
    ∃ own' fs', frames' = own' ++ fs' ∧ Owns code (pushersAfter i pc scopes) own' ∧
      (fs' = fs ∨ scopes = [] ∧ pushersAfter i pc scopes = [] ∧ fs.Stores fs') := by
  cases h with
  | @opens _ _ f hopens hloop =>
    refine ⟨f :: own, fs, rfl, ?_, .inl rfl⟩
    rw [Instruction.pushersAfter_of_opensScope hopens]
    exact .cons (fun hpush => hloop (Option.some.inj (hcode.symm.trans hpush))) howns
  | closes =>
    cases howns with
    | nil => exact absurd rfl (hcloses rfl)
    | @cons opener f openers rest hf hrest =>
      obtain ⟨g, below, hbelow⟩ : ∃ g below, rest ++ fs = g :: below :=
        List.exists_cons_of_ne_nil (List.append_ne_nil_of_right_ne_nil rest hfs)
      refine ⟨rest, fs, ?_, hrest, .inl rfl⟩
      rw [List.cons_append, hbelow, Frames.pop]
  | stores =>
    obtain ⟨own', fs', hstore, howns', hfs'⟩ := howns.store hfs _ _
    exact ⟨own', fs', hstore, howns', hfs'.imp_right fun h => ⟨h.1, h.1, h.2⟩⟩
  | visits =>
    obtain ⟨opener, rest, rfl, hopener⟩ := hiterates _ rfl
    obtain ⟨own₁, hset, howns₁⟩ := howns.setLoop hopener _
    obtain ⟨own', fs', hstore, howns', hfs'⟩ := howns₁.store hfs _ _
    rw [hset]
    exact ⟨own', fs', hstore, howns', hfs'.imp_right fun h => absurd h.1 (List.cons_ne_nil _ _)⟩
  | keeps hopens hpops =>
    refine ⟨own, fs, rfl, ?_, .inl rfl⟩
    rcases i.pushersAfter_cases pc with ⟨h, -⟩ | ⟨h, -⟩ | ⟨-, -, heq⟩
    · exact absurd h (by simp [hopens])
    · exact absurd h hpops
    · rwa [heq]

end Effects

namespace Setting

variable {setting : Setting} {first last : Nat} {m m' : Machine}

/-- The machine is in a scope, and in others that were opened in it; their frames lie over those it
came with. -/
def InScope (setting : Setting) (first : Nat) (fs : Frames) (m : Machine) : Prop :=
  ∃ inner own, setting.code.scopes m.pc = inner ++ first :: setting.code.scopes first ∧
    m.frames = own ++ fs ∧ Owns setting.code (inner ++ [first]) own

/-- A machine in a scope stands between its ends, over the frames it came with. -/
theorem InScope.over (h : setting.InScope first fs m) (hcloses : setting.code.Closes first last) :
    first < m.pc ∧ m.pc ≤ last ∧ ∃ own, own ≠ [] ∧ m.frames = own ++ fs := by
  obtain ⟨inner, own, hscopes, hframes, howns⟩ := h
  obtain ⟨hfirst, hlast⟩ := hcloses.between
    (show first ∈ setting.code.scopes m.pc by simp [hscopes])
  refine ⟨hfirst, hlast, own, ?_, hframes⟩
  rintro rfl
  simpa using List.Forall₂.length_eq howns

variable (hwell : setting.code.WellScoped) (hcloses : setting.code.Closes first last)

include hwell hcloses

/-- The instruction that opens a scope leads into it. -/
theorem Steps.opens (h : setting.Steps first (last + 1) m m') (hpc : m.pc = first)
    (hframes : m.frames ≠ []) : setting.InScope first m.frames m' := by
  subst hpc
  obtain ⟨i, hi, hexecute⟩ := h.exists_execute
  obtain ⟨opener, hopener, hopens⟩ := hcloses.opens
  obtain rfl : i = opener := Option.some.inj (hi.symm.trans hopener)
  have heffect : FrameEffect i ([] ++ m.frames) m'.frames := frameEffect_execute hexecute
  obtain ⟨own, fs, hown, howns, hfs⟩ := heffect.owns
    .nil hframes hi (by rintro _ rfl; simp [Instruction.opensScope] at hopens)
    (by rintro rfl; simp [Instruction.opensScope] at hopens)
  have hpushed := Instruction.pushersAfter_of_opensScope hopens m.pc
  have hscopes := (hwell.respects hi).leads m'.pc (pc_execute hexecute)
  rw [hpushed] at hscopes
  rw [hpushed] at howns hfs
  obtain rfl : fs = m.frames := hfs.resolve_right fun h => absurd h.2.1 (List.cons_ne_nil _ _)
  exact ⟨[], own, hscopes, hown, howns⟩

/-- An instruction in a scope stays in it, or it closes it and leaves the frames that were there
before. -/
theorem InScope.steps {fs : Frames} (hin : setting.InScope first fs m)
    (h : setting.Steps first (last + 1) m m') (hfs : fs ≠ []) :
    setting.InScope first fs m' ∨ m'.pc = last + 1 ∧ m'.frames = fs := by
  obtain ⟨i, hi, hexecute⟩ := h.exists_execute
  obtain ⟨inner, own, hscopes, hframes, howns⟩ := hin
  have hrespects := hwell.respects hi
  have heffect := frameEffect_execute hexecute
  rw [hframes] at heffect
  obtain ⟨own', fs', hframes', howns', hfs'⟩ := heffect.owns howns hfs hi
    (fun target htarget => by
      obtain ⟨opener, rest, heq, hpush⟩ := hrespects.iterates target htarget
      rw [hscopes] at heq
      cases inner with
      | nil => exact ⟨first, [], rfl, (List.cons.inj heq).1 ▸ hpush⟩
      | cons opener' inner => exact ⟨opener', _, rfl, (List.cons.inj heq).1 ▸ hpush⟩)
    (fun _ => by simp)
  obtain rfl : fs' = fs := hfs'.resolve_right fun h => by simp at h
  have hleads := hrespects.leads m'.pc (pc_execute hexecute)
  rw [hscopes] at hleads
  rcases i.pushersAfter_inner m.pc inner first with ⟨inner', heq⟩ | ⟨rfl, rfl⟩
  · rw [heq] at hleads
    rw [heq] at howns'
    exact .inl ⟨inner', own', hleads, hframes', howns'⟩
  · obtain rfl : own' = [] := by simpa [pushersAfter, Owns] using howns'
    have hlast : m.pc = last := Code.Closes.unique ⟨hcloses.opens, hi, hscopes⟩ hcloses
    exact .inr ⟨by simpa [hlast, Instruction.successors] using pc_execute hexecute, hframes'⟩

/-- A machine that comes to an instruction that opens a scope is in it from then on, until it comes
to the end of the scope with the frames it came with. -/
theorem Reaches.scope (h : setting.Reaches first (last + 1) m m') (hpc : m.pc = first)
    (hframes : m.frames ≠ []) :
    m' = m ∨ setting.InScope first m.frames m' ∨ m'.pc = last + 1 ∧ m'.frames = m.frames := by
  induction h with
  | refl => exact .inl rfl
  | tail _ hstep ih =>
    rcases ih with rfl | hin | ⟨hend, -⟩
    · exact .inr (.inl (hstep.opens hwell hcloses hpc hframes))
    · exact .inr (hin.steps hwell hcloses hstep hframes)
    · exact absurd hstep.lt_last (by omega)

/-- A run that ends well and comes to a scope gets to its end. -/
theorem InScope.exists_end {fs : Frames} {budget : Nat} {final : Machine}
    (hin : setting.InScope first fs m) (hfs : fs ≠ [])
    (hrun : m.runCode setting.linked setting.invoke setting.code budget = .ok final) :
    ∃ m' rest, rest ≤ budget ∧ setting.Reaches first (last + 1) m m' ∧ m'.pc = last + 1 ∧
      m'.frames = fs ∧
      m'.runCode setting.linked setting.invoke setting.code rest = .ok final := by
  induction budget generalizing m with
  | zero => simp [runCode, fail] at hrun
  | succ budget ih =>
    obtain ⟨hfirst, hlast, -⟩ := hin.over hcloses
    obtain ⟨i, hi⟩ : ∃ i, m.fetch? setting.code = some i := by
      have hsize : last < setting.code.instructions.size :=
        (Array.getElem?_eq_some_iff.mp hcloses.closes).1
      exact ⟨_, Array.getElem?_eq_getElem (Nat.lt_of_le_of_lt hlast hsize)⟩
    simp only [runCode, hi] at hrun
    split at hrun
    · rename_i m₁ hadvance
      have hstep : setting.Steps first (last + 1) m m₁ :=
        ⟨Nat.le_of_lt hfirst, Nat.lt_succ_of_le hlast, by simp [step?, hi, hadvance]⟩
      rcases hin.steps hwell hcloses hstep hfs with hin₁ | ⟨hend, hframes⟩
      · obtain ⟨m', rest, hle, hreaches, hend⟩ := ih hin₁ hrun
        exact ⟨m', rest, Nat.le_succ_of_le hle, .head hstep hreaches, hend⟩
      · exact ⟨m₁, budget, Nat.le_succ budget, .single hstep, hend, hframes, hrun⟩
    · simp at hrun

end Setting

/-- Code that leaves frames alone: a machine that comes to the instruction that opens a scope has
from then on frames of its own over those it came with, until it comes to the end of the scope with
exactly these. A run that ends well does come there. -/
def Setting.LeavesFrames (setting : Setting) (first last : Nat) : Prop :=
  ∀ ⦃m : Machine⦄, m.pc = first → m.frames ≠ [] →
    (∀ m', setting.Reaches first (last + 1) m m' →
      m' = m ∨ (first < m'.pc ∧ m'.pc ≤ last ∧ ∃ own, own ≠ [] ∧ m'.frames = own ++ m.frames) ∨
        m'.pc = last + 1 ∧ m'.frames = m.frames) ∧
    ∀ budget final, m.runCode setting.linked setting.invoke setting.code budget = .ok final →
      ∃ m' rest, rest < budget ∧ setting.Reaches first (last + 1) m m' ∧ m'.pc = last + 1 ∧
        m'.frames = m.frames ∧
        m'.runCode setting.linked setting.invoke setting.code rest = .ok final

namespace Setting

variable {setting : Setting} {first last : Nat} {m m' : Machine}

/-- Every scope of well-scoped code leaves the frames below it alone. -/
theorem leavesFrames (hwell : setting.code.WellScoped) (hcloses : setting.code.Closes first last) :
    setting.LeavesFrames first last := by
  intro m hpc hframes
  refine ⟨fun m' hreaches => ?_, fun budget final hrun => ?_⟩
  · rcases hreaches.scope hwell hcloses hpc hframes with heq | hin | hend
    · exact .inl heq
    · exact .inr (.inl (hin.over hcloses))
    · exact .inr (.inr hend)
  · obtain ⟨i, hi, -⟩ := hcloses.opens
    have hlt : first < last := Code.lt_of_mem_scopes (hcloses.scopes_eq ▸ List.mem_cons_self)
    cases budget with
    | zero => simp [runCode, fail] at hrun
    | succ budget =>
      have hfetch : m.fetch? setting.code = some i := by rw [fetch?, hpc, hi]
      simp only [runCode, hfetch] at hrun
      split at hrun
      · rename_i m₁ hadvance
        have hstep : setting.Steps first (last + 1) m m₁ :=
          ⟨by omega, by omega, by simp [step?, hfetch, hadvance]⟩
        obtain ⟨m', rest, hle, hreaches, hend⟩ :=
          (hstep.opens hwell hcloses hpc hframes).exists_end hwell hcloses hframes hrun
        exact ⟨m', rest, Nat.lt_succ_of_le hle, .head hstep hreaches, hend⟩
      · simp at hrun

/-- A machine that came to a stretch of code has the frames of the scopes it is in, above those that
were open there, over the frames it came with. Of these nothing has changed but variables of the
innermost one. -/
theorem Reaches.over {below : List Nat} (hrespects : setting.code.RespectsAll below first last)
    (h : setting.Reaches first last m m') (hbelow : setting.code.scopes m.pc = below)
    (hframes : m.frames ≠ []) :
    ∃ inner own fs, setting.code.scopes m'.pc = inner ++ below ∧ m'.frames = own ++ fs ∧
      Owns setting.code inner own ∧ m.frames.Stores fs := by
  induction h with
  | refl => exact ⟨[], [], m.frames, hbelow, rfl, .nil, .refl hframes⟩
  | tail _ hstep ih =>
    obtain ⟨inner, own, fs, hscopes, hown, howns, hfs⟩ := ih
    obtain ⟨i, hi, hexecute⟩ := hstep.exists_execute
    obtain ⟨inner', hover⟩ := hrespects hstep.first_le hstep.lt_last hi
    obtain rfl : inner = inner' := List.append_cancel_right (hscopes.symm.trans hover.scopes_eq)
    have heffect := frameEffect_execute hexecute
    rw [hown] at heffect
    obtain ⟨own', fs', hown', howns', hfs'⟩ :=
      heffect.owns howns hfs.ne_nil hi hover.iterates hover.closes
    refine ⟨_, own', fs', hover.leads _ (pc_execute hexecute), hown', howns', ?_⟩
    rcases hfs' with rfl | ⟨-, -, hstores⟩
    · exact hfs
    · exact hfs.trans hstores

/-- A machine that started well-scoped code from its beginning has the frames of the scopes it is in
over those it came with. Of these nothing has changed but variables of the innermost one. -/
theorem Reaches.whole (hwell : setting.code.WellScoped)
    (h : setting.Reaches first last m m') (hpc : m.pc = 0) (hframes : m.frames ≠ []) :
    ∃ own fs, m'.frames = own ++ fs ∧ Owns setting.code (setting.code.scopes m'.pc) own ∧
      m.frames.Stores fs := by
  obtain ⟨inner, own, fs, hscopes, hown, howns, hfs⟩ :=
    h.over (fun _ _ _ _ hi => ⟨_, (hwell.respects hi).over⟩) (by rw [hpc]; rfl) hframes
  rw [hscopes, List.append_nil]
  exact ⟨own, fs, hown, howns, hfs⟩

end Setting

end Machine

end Templating
