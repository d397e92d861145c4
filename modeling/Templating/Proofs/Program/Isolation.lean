import Templating.Proofs.Emission.Scopes
import Templating.Proofs.Machine.Above
import Templating.Proofs.Machine.ExpressionCode
import Templating.Proofs.Machine.Resemblance
import Templating.Proofs.Program.Soundness

/-!
# Isolated includes

A template that is included with nothing but a given value runs in an isolated frame over that
value. Two machines that come to such a tag go through its code in lockstep, whatever their frames,
values, escaping modes and earlier output are: nothing below the isolated frame is looked up, stored
to or iterated. Calls are the one exception, since the body of a macro sees the variables of the
outermost frame. So the tag adds the same in both as far as the calls made inside have the same
results over the frames of both.
-/

namespace Templating

open Machine (Setting Stretch Below Lockstep Traced)

/-- The instruction calls a value. -/
def Instruction.isCall : Instruction → Bool
  | .call _ => true
  | _ => false

namespace Frames

variable {rest fs : Frames}

/-- An isolated frame looks the same over all frames. -/
theorem standsFor_isolated (rest : Frames) :
    StandsFor (fun f => f.isolated = true) fun f => f :: rest where
  ne_nil _ := List.cons_ne_nil _ _
  load {f} hisolated name := by
    simp only [load, hisolated, if_true]
  store hisolated _ _ := ⟨rfl, hisolated⟩

/-- The outermost frame over other frames is that of the other ones. -/
theorem root_above_rest (hfs : fs ≠ []) (hrest : rest ≠ []) :
    root (above (fun f => f :: rest) fs) = root rest := by
  obtain ⟨g, rest, rfl⟩ := List.exists_cons_of_ne_nil hrest
  refine root_above (fun f => ?_) hfs
  rw [List.getLast?_cons_cons, root, List.getLast?_eq_some_getLast (List.cons_ne_nil g rest),
    Option.getD_some]

/-- There are as many frames more as are below. -/
theorem length_above (hfs : fs ≠ []) :
    (above (fun f => f :: rest) fs).length = fs.length + rest.length := by
  induction fs with
  | nil => exact absurd rfl hfs
  | cons f fs ih =>
    cases fs with
    | nil =>
      simp only [above, List.length_cons, List.length_nil]
      omega
    | cons g fs =>
      rw [above_cons (List.cons_ne_nil _ _), List.length_cons, List.length_cons,
        ih (List.cons_ne_nil _ _)]
      omega

end Frames

namespace Machine

/-- What a stretch of code adds to the output: a text, and nothing else has changed behind it; or it
stops with an error. -/
def Setting.Contributes (setting : Setting) (first last : Nat) (m : Machine) :
    Result String → Prop
  | .ok text =>
    setting.Reaches first last m { m with pc := last, output := m.output.write text }
  | .error e => setting.Stops first last m e

/-- The calls that are made within a stretch of code, from frames above those it was entered with,
have the same results over other frames. -/
def Setting.CallsAlike (setting : Setting) (first last : Nat) (m : Machine) (others : Frames) :
    Prop :=
  ∀ {m' : Machine} {args : Nat}, setting.Reaches first last m m' →
    m.frames.length < m'.frames.length → m'.fetch? setting.code = some (.call args) →
      setting.invoke (m'.popMany args).2.pop.1 (m'.popMany args).1 m'.frames m'.autoescape =
        setting.invoke (m'.popMany args).2.pop.1 (m'.popMany args).1 others m'.autoescape

/-- What is below an isolated frame that a machine pushes. -/
def beneath (m : Machine) : Below where
  stack := m.stack
  modes := m.modes
  output := m.output
  outermost := fun f => f :: m.frames

variable {setting : Setting} {linked : LinkedProgram} {enter : LinkedProgram.Entry}
  {m n m₁ m₂ : Machine} {first last : Nat} {front body back : Fragment}

/-- An instruction leads to the next position, or to the target of its jump. -/
theorem pc_of_execute {invoke : Invocation} {code : Code} {i : Instruction}
    (hjumps : i.JumpsWithin first last) (hfirst : first ≤ m.pc) (hlast : m.pc < last)
    (h : m.execute linked invoke code i = .ok n) : first ≤ n.pc ∧ n.pc ≤ last := by
  have hpc := pc_execute h
  cases i <;> simp only [Instruction.successors, Instruction.JumpsWithin, List.mem_cons,
    List.not_mem_nil, or_false] at hpc hjumps <;> omega

/-- Code in front of other code stands there as it does alone. -/
theorem Below.carries_front {invoke invoke' : Invocation} {b : Below} (hshift : b.shift = 0)
    (front back : Fragment) :
    b.Carries ⟨linked, invoke, Code.ofFragment front⟩
      ⟨linked, invoke', Code.ofFragment (front ++ back)⟩ where
  code {pc i} h := by
    rw [Code.getElem?_ofFragment] at h ⊢
    obtain ⟨p, hp, rfl⟩ := Option.map_eq_some_iff.mp h
    rw [hshift, Nat.zero_add, Instruction.shifted_zero,
      List.getElem?_append_left (List.getElem?_eq_some_iff.mp hp).1, hp, Option.map_some]
  location {pc i} h := by
    rw [Code.getElem?_ofFragment] at h
    obtain ⟨p, hp, -⟩ := Option.map_eq_some_iff.mp h
    have hwhole : (front ++ back)[pc]? = some p := by
      rw [List.getElem?_append_left (List.getElem?_eq_some_iff.mp hp).1, hp]
    simp only [hshift, Nat.zero_add, Program.location?, Code.place?_ofFragment hp,
      Code.place?_ofFragment hwhole]
  name := rfl
  filters := rfl
  macros _ := rfl

/-- The end of an isolated frame, where what was below is as it was, apart from what was written
above it. -/
theorem popFrame_isolated {pc : Nat} {f : Frame}
    (hpop : setting.code.instructions[pc]? = some .popFrame) (hfirst : first ≤ pc)
    (hlast : pc < last) (hpc : n.pc = pc) (hstack : n.stack = []) (hframes : n.frames = [f])
    (hmodes : n.modes = []) (hcaptures : n.output.captures = [])
    (hmode : n.autoescape = m.autoescape) (hne : m.frames ≠ []) :
    setting.Steps first last (n.above m.beneath)
      { m with pc := pc + 1, output := m.output.write n.output.text } := by
  obtain ⟨npc, nstack, nframes, ⟨ntext, ncaptures⟩, nautoescape, nmodes⟩ := n
  obtain ⟨mpc, stack, frames, output, autoescape, modes⟩ := m
  obtain ⟨g, rest, rfl⟩ := List.exists_cons_of_ne_nil hne
  subst hpc hstack hframes hmodes hcaptures hmode
  refine ⟨by simpa [above, beneath] using hfirst, by simpa [above, beneath] using hlast, ?_⟩
  have hfetch : (above ⟨npc, [], [f], ⟨ntext, []⟩, nautoescape, []⟩
      (beneath ⟨mpc, stack, g :: rest, output, nautoescape, modes⟩)).fetch? setting.code =
        some .popFrame := by
    simpa [fetch?, above, beneath] using hpop
  simp only [step?, hfetch, Option.map_some, advance, execute]
  simp [above, beneath, next, Frames.above, Frames.pop, Output.above]

/-- The code up to the end of an isolated frame, with calls that are made as from given frames. -/
def isolatedSetting (linked : LinkedProgram) (enter : LinkedProgram.Entry) (frames : Frames)
    (code : Fragment) : Setting where
  linked := linked
  invoke := fun callee args _ mode => linked.callValue enter callee args frames mode
  code := Code.ofFragment code

/-- A call above an isolated frame is one from the frames below, so it has the result of a call from
other frames if these agree on it. -/
theorem callsAlike_beneath {frames : Frames} {code : Fragment} {code' : Code}
    (hn : n.frames ≠ []) (hm : m.frames ≠ [])
    (h : ∀ args, n.fetch? (Code.ofFragment code) = some (.call args) →
      linked.callValue enter (n.popMany args).2.pop.1 (n.popMany args).1 m.frames n.autoescape =
        linked.callValue enter (n.popMany args).2.pop.1 (n.popMany args).1 frames n.autoescape) :
    m.beneath.CallsAlike (isolatedSetting linked enter frames code)
      ⟨linked, linked.callValue enter, code'⟩ n := by
  intro args hfetch
  refine (LinkedProgram.callValue_congr ?_).trans (h args hfetch)
  exact congrArg Frame.snapshot (Frames.root_above_rest hn hm)

/-- A machine in the isolated frame of another one: it stands within the body, or right behind it,
and on top of the other one it is reached from there. -/
structure RunsIsolated (r : Stretch) (m : Machine) (first last : Nat) (n : Machine) : Prop where
  first_le : first ≤ n.pc
  le_last : n.pc ≤ last
  reaches : r.Reaches m (n.above m.beneath)

variable {r : Stretch} {frames : Frames}

/-- An instruction of the body stays within it. -/
theorem RunsIsolated.step
    (hbody : ∀ i ∈ body.instructions, i.JumpsWithin front.length (front.length + body.length))
    (h : RunsIsolated r m front.length (front.length + body.length) n) {n' : Machine}
    (hstep : n.step? linked (isolatedSetting linked enter frames (front ++ body)).invoke
      (Code.ofFragment (front ++ body)) = some (.ok n'))
    (hsteps : r.Steps (n.above m.beneath) (n'.above m.beneath)) :
    RunsIsolated r m front.length (front.length + body.length) n' := by
  obtain ⟨i, hfetch, hadvance⟩ := Option.map_eq_some_iff.mp hstep
  rw [fetch?, Code.getElem?_ofFragment, List.getElem?_append_right h.first_le] at hfetch
  obtain ⟨p, hp, rfl⟩ := Option.map_eq_some_iff.mp hfetch
  have hlt := (List.getElem?_eq_some_iff.mp hp).1
  have hjumps := hbody _ (List.mem_map_of_mem (List.mem_of_getElem? hp))
  simp only [advance] at hadvance
  split at hadvance
  · obtain rfl := Except.ok.inj hadvance
    have hfirst := h.first_le
    obtain ⟨hfirst', hlast'⟩ := pc_of_execute hjumps hfirst (by omega) ‹_›
    exact ⟨hfirst', hlast', h.reaches.tail hsteps⟩
  · simp at hadvance

/-- Calls apart, a machine in an isolated frame suits everything below; and calls do so if their
results are the same over the frames of two machines. -/
theorem RunsIsolated.suits
    (hr : r.toSetting =
      ⟨linked, linked.callValue enter, Code.ofFragment (front ++ body ++ back)⟩)
    (hfirst : r.first ≤ front.length) (hlast : front.length + body.length ≤ r.last)
    (hne : m₁.frames ≠ []) (hne' : m₂.frames ≠ [])
    (hcalls : r.CallsAlike r.first r.last m₁ m₂.frames) {t : Traced} {base : Nat}
    (hbalanced : t.Balanced (Code.ofFragment (front ++ body)) base)
    (hframes : t.machine.frames ≠ [])
    (h : RunsIsolated r m₁ front.length (front.length + body.length) t.machine) :
    m₁.beneath.Suits (isolatedSetting linked enter m₁.frames (front ++ body)) r t.machine ∧
      m₂.beneath.Suits (isolatedSetting linked enter m₁.frames (front ++ body)) r t.machine := by
  obtain ⟨⟨linked', invoke, code⟩, first, last⟩ := r
  obtain ⟨rfl, rfl, rfl⟩ := Setting.mk.inj hr
  have hwithin {i : Instruction} (hfetch : t.machine.fetch? (Code.ofFragment (front ++ body)) =
      some i) : first ≤ 0 + t.machine.pc ∧ 0 + t.machine.pc < last := by
    rw [fetch?, Code.getElem?_ofFragment] at hfetch
    obtain ⟨p, hp, -⟩ := Option.map_eq_some_iff.mp hfetch
    have hlt := (List.getElem?_eq_some_iff.mp hp).1
    rw [List.length_append] at hlt
    have hpc := h.first_le
    simp only at hfirst hlast
    omega
  refine ⟨⟨hwithin, callsAlike_beneath hframes hne fun _ _ => rfl⟩, ⟨hwithin, ?_⟩⟩
  refine callsAlike_beneath hframes hne' fun args hfetch => Eq.symm ?_
  have hargs : args + 1 ≤ t.machine.stack.length := (hbalanced.running _ hfetch).1
  have hcarries : m₁.beneath.Carries
      ⟨linked', linked'.callValue enter, Code.ofFragment (front ++ body)⟩
      ⟨linked', linked'.callValue enter, Code.ofFragment (front ++ body ++ back)⟩ :=
    Below.carries_front rfl (front ++ body) back
  have hfetch' : (t.machine.above m₁.beneath).fetch?
      (Code.ofFragment (front ++ body ++ back)) = some (.call args) := hcarries.code hfetch
  have hlength : m₁.frames.length < (t.machine.above m₁.beneath).frames.length := by
    have hpos := List.length_pos_iff.mpr hframes
    simp only [above, beneath, Frames.length_above hframes]
    omega
  have hcall := hcalls h.reaches hlength hfetch'
  have hcallee : 1 ≤ (t.machine.popMany args).2.stack.length := by
    simp only [popMany, List.length_drop]
    omega
  simp only [popMany_above (Nat.le_of_succ_le hargs), pop_above hcallee] at hcall
  refine Eq.trans (LinkedProgram.callValue_congr ?_) hcall
  exact congrArg Frame.snapshot (Frames.root_above_rest hframes hne).symm

/-- A machine that has nothing but an isolated frame over a value. -/
def isolated (first : Nat) (v : Value) (mode : Bool) : Machine where
  pc := first
  frames := [{ context := v, isolated := true }]
  autoescape := mode

/-- The machine in an isolated frame over a value. -/
def entered (m : Machine) (first : Nat) (v : Value) : Machine :=
  (m.moved first m.stack).pushFrame { context := v, isolated := true }

/-- To enter an isolated frame is to put a machine that has nothing else on top. -/
theorem isolated_above (first : Nat) (v : Value) :
    (isolated first v m.autoescape).above m.beneath = m.entered first v := by
  obtain ⟨pc, stack, frames, ⟨text, captures⟩, autoescape, modes⟩ := m
  cases captures <;> simp [isolated, above, beneath, entered, moved, pushFrame, Frames.above,
    Output.above, Output.write]

/-- Two machines that are as two others were, but behind a stretch of code and with the same text
written. -/
def WroteAlike (m₁ m₂ : Machine) (pc : Nat) (n₁ n₂ : Machine) : Prop :=
  ∃ text, n₁ = { m₁ with pc, output := m₁.output.write text } ∧
    n₂ = { m₂ with pc, output := m₂.output.write text }

/-- The code of a body in an isolated frame, run from two machines: both go through it in lockstep,
and behind it both are as they were, with the same text written. -/
theorem lockstep_isolated {v : Value}
    (hr : r.toSetting =
      ⟨linked, linked.callValue enter, Code.ofFragment (front ++ body ++ back)⟩)
    (hbody : Structured front.length body.instructions 0 0)
    (hpop : r.code.instructions[front.length + body.length]? = some .popFrame)
    (hfirst : r.first ≤ front.length) (hlast : front.length + body.length < r.last)
    (hne : m₁.frames ≠ []) (hne' : m₂.frames ≠ []) (hmode : m₂.autoescape = m₁.autoescape)
    (hcalls : r.CallsAlike r.first r.last m₁ m₂.frames)
    (hstart : r.Reaches m₁ (m₁.entered front.length v)) :
    Lockstep r r (WroteAlike m₁ m₂ (front.length + body.length + 1))
      (m₁.entered front.length v) (m₂.entered front.length v) := by
  have hleads : Traced.Leads (isolatedSetting linked enter m₁.frames (front ++ body)) 1
      front.length (front.length + body.instructions.length) 0 0 :=
    Traced.leads_of_structured hbody
      (Code.Carries.holds (List.append_nil (front ++ body) ▸ Code.ofFragment_carries front body []))
  have hjumps := hbody.jumpsWithin
  rw [Fragment.length_instructions] at hjumps hleads
  have hcarries (m : Machine) :
      m.beneath.Carries (isolatedSetting linked enter m₁.frames (front ++ body)) r.toSetting := by
    rw [hr]
    exact Below.carries_front rfl (front ++ body) back
  have hereditary : Traced.Hereditary
      (isolatedSetting linked enter m₁.frames (front ++ body)) 1 fun t =>
        RunsIsolated r m₁ front.length (front.length + body.length) t.machine →
          t.machine.frames.Outermost (fun f => f.isolated = true) →
            Lockstep r r (WroteAlike m₁ m₂ (front.length + body.length + 1))
              (t.machine.above m₁.beneath) (t.machine.above m₂.beneath) :=
    hereditary_lockstep Nat.one_pos (hcarries m₁) (hcarries m₂)
      (Frames.standsFor_isolated m₁.frames) (Frames.standsFor_isolated m₂.frames)
      (fun hA hstep hsteps => hA.step hjumps hstep hsteps)
      (fun hbalanced hA houtermost => hA.suits hr hfirst (Nat.le_of_lt hlast) hne hne' hcalls
        hbalanced houtermost.ne_nil)
  rw [← isolated_above front.length v, ← isolated_above (m := m₂) front.length v, hmode]
  have hat : Traced.At ⟨isolated front.length v m₁.autoescape, []⟩ front.length 0 [] :=
    ⟨rfl, [], rfl, rfl⟩
  refine hleads hereditary hat ⟨Nat.one_pos, rfl⟩ (fun t hat' hkeeps _ _ => ?_)
    ⟨Nat.le_refl _, Nat.le_add_right _ _, ?_⟩ ⟨_, rfl, rfl⟩
  · -- The body is done: what it wrote stays when its frame is popped.
    obtain ⟨top, hstack, htop⟩ := hat'.stack
    obtain rfl := List.eq_nil_of_length_eq_zero htop
    obtain ⟨f, f', rest, hf, hf', -⟩ := hkeeps.frames
    obtain ⟨-, rfl⟩ := List.cons.inj hf
    have hends (m : Machine) (hne : m.frames ≠ []) (hmode : m.autoescape = m₁.autoescape) :
        r.Steps (t.machine.above m.beneath)
          { m with
            pc := front.length + body.length + 1
            output := m.output.write t.machine.output.text } :=
      popFrame_isolated hpop (Nat.le_trans hfirst (Nat.le_add_right _ _)) hlast hat'.pc hstack hf'
        hkeeps.modes (List.eq_nil_of_length_eq_zero hkeeps.captures)
        (hkeeps.autoescape.trans hmode.symm) hne
    exact .step (hends m₁ hne rfl) (hends m₂ hne' hmode) (.last ⟨_, rfl, rfl⟩)
  · exact isolated_above (m := m₁) front.length v ▸ hstart

/-- Machines that come into lockstep until they wrote alike contribute the same. -/
theorem Lockstep.contributes {n₁ n₂ : Machine} (h : Lockstep r r (WroteAlike m₁ m₂ r.last) n₁ n₂)
    (hreaches₁ : r.Reaches m₁ n₁) (hreaches₂ : r.Reaches m₂ n₂) :
    ∃ result, r.Contributes r.first r.last m₁ result ∧ r.Contributes r.first r.last m₂ result := by
  rcases h.reaches_or_stops with ⟨_, _, ⟨text, rfl, rfl⟩, hlast₁, hlast₂⟩ | ⟨e, hstop₁, hstop₂⟩
  · exact ⟨.ok text, hreaches₁.trans hlast₁, hreaches₂.trans hlast₂⟩
  · exact ⟨.error e, hstop₁.after hreaches₁, hstop₂.after hreaches₂⟩

end Machine

namespace Emission

variable {env : Surroundings} {setting : Setting} {s t : EmissionState} {code : Fragment}
  {m : Machine} {e : Expr} {v : Value}

/-- The code of a frame over a value. -/
theorem includeFrame_laid {isolated : Bool} (hfits : e.Fits)
    (h : includeFrame env (some e) isolated s = .ok (code, t)) : Laid s t code := by
  simp only [includeFrame, bind_eq_ok, pure_eq_ok] at h
  obtain ⟨value, u, hcode, push, w, hpush, rfl, rfl⟩ := h
  exact (expr_emitted hfits hcode).toLaid.append (op_laid hpush trivial)

/-- The code of an isolated frame over a value leads into the frame. -/
theorem includeFrame_reaches {situation : Expr.Situation} (hfits : e.Fits)
    (h : includeFrame env (some e) true s = .ok (code, t))
    (hserves : Serves setting m situation t) (hcarries : setting.code.Carries s.next code)
    (hpc : m.pc = s.next) (hvalue : e.eval situation = .ok v) :
    setting.Reaches s.next t.next m (m.entered t.next v) := by
  simp only [includeFrame, bind_eq_ok, pure_eq_ok] at h
  obtain ⟨value, u, hcode, push, w, hpush, rfl, rfl⟩ := h
  have hemitted := expr_emitted hfits hcode
  obtain ⟨hcarries₁, hcarries₂⟩ := hemitted.carries hcarries
  obtain ⟨rfl, rfl⟩ := op_eq_ok.mp hpush
  have hdelivers : setting.Delivers s.next u.next (m.moved s.next m.stack)
      ((e.eval situation).map fun v => m.moved u.next (v :: m.stack)) :=
    expr_delivers hfits hcode ⟨hserves.filters, hserves.file, hserves.mode, hserves.frames,
      hserves.invoke⟩ hcarries₁
  rw [hvalue, ← hpc] at hdelivers
  have hreaches : setting.Reaches m.pc u.next m (m.moved u.next (v :: m.stack)) := hdelivers
  have hstep : setting.Steps u.next (u.next + 1) (m.moved u.next (v :: m.stack))
      (m.entered (u.next + 1) v) :=
    .single (m := m.moved u.next (v :: m.stack)) hcarries₂.head.1 rfl
  rw [← hpc]
  refine (hreaches.mono (Nat.le_refl _) (Nat.le_succ _)).tail ?_
  exact ⟨Nat.le_trans (hpc ▸ hemitted.next_le) hstep.first_le, hstep.lt_last, hstep.step⟩

/-- A machine that comes to code of the template where an expression has a value. -/
structure Meets (registry : Registry) (setting : Setting) (template : String) (first : Nat)
    (e : Expr) (v : Value) (m : Machine) : Prop where
  pc : m.pc = first
  frames : m.frames ≠ []
  value : e.eval ⟨registry.filter?, ⟨template, m.autoescape⟩, setting.invoke, m.frames⟩ = .ok v

/-- A body in an isolated frame over a value contributes the same from two machines where the value
and the results of the calls inside are the same. -/
theorem framed_isolated {registry : Registry} {u w : EmissionState} {p : Program}
    {linked : LinkedProgram} {template : String} {frame inner before after : Fragment}
    {stop : Placed} {m₁ m₂ : Machine} {enter : LinkedProgram.Entry} (hfits : e.Fits)
    (hframe : includeFrame env (some e) true s = .ok (frame, u)) (hinner : Emitted u w inner 0 0)
    (hstop : stop.instruction = .popFrame) (hlink : p.link registry = .ok linked)
    (hfilters : w.filters.toList <+: p.filters.toList) (hfile : p.files[s.file]? = some template)
    (hbefore : before.length = s.next)
    (hsetting : setting = ⟨linked, linked.callValue enter,
      Code.ofFragment (before ++ (frame ++ inner ++ [stop]) ++ after)⟩)
    (hmeets₁ : Meets registry setting template s.next e v m₁)
    (hmeets₂ : Meets registry setting template s.next e v m₂)
    (hmode : m₂.autoescape = m₁.autoescape)
    (hcalls : setting.CallsAlike s.next (s.next + (frame ++ inner ++ [stop]).length) m₁
      m₂.frames) :
    ∃ r, setting.Contributes s.next (s.next + (frame ++ inner ++ [stop]).length) m₁ r ∧
      setting.Contributes s.next (s.next + (frame ++ inner ++ [stop]).length) m₂ r := by
  have hlaid := includeFrame_laid hfits hframe
  have hfront : (before ++ frame).length = u.next := by
    rw [List.length_append, hbefore, hlaid.advances.next]
  have hfirst : s.next ≤ (before ++ frame).length := by
    rw [List.length_append, hbefore]
    exact Nat.le_add_right _ _
  have hlast : s.next + (frame ++ inner ++ [stop]).length =
      (before ++ frame).length + inner.length + 1 := by
    simp only [List.length_append, List.length_cons, List.length_nil, hbefore]
    omega
  have hr : setting = ⟨linked, linked.callValue enter, Code.ofFragment
      (before ++ frame ++ inner ++ (stop :: after))⟩ := by
    rw [hsetting]
    simp only [List.append_assoc, List.singleton_append]
  have hcarries : setting.code.Carries s.next (frame ++ inner ++ [stop]) := by
    rw [hsetting, ← hbefore]
    exact Code.ofFragment_carries before _ after
  obtain ⟨hcarries, hcarriesStop⟩ := Code.Carries.of_append hcarries
  have hreaches {m : Machine} (hmeets : Meets registry setting template s.next e v m) :
      setting.Reaches s.next (s.next + (frame ++ inner ++ [stop]).length) m
        (m.entered (before ++ frame).length v) := by
    have hserves : Serves setting m
        ⟨registry.filter?, ⟨template, m.autoescape⟩, setting.invoke, m.frames⟩ u :=
      serves_of_link (hsetting ▸ hlink) (hinner.advances.filters.trans hfilters)
        (hlaid.advances.file ▸ hfile)
    rw [hfront]
    refine (includeFrame_reaches hfits hframe hserves (Code.Carries.of_append hcarries).1
      hmeets.pc hmeets.value).mono (Nat.le_refl _) ?_
    omega
  refine Lockstep.contributes (r := ⟨setting, s.next, _⟩) ?_ (hreaches hmeets₁)
    (hreaches hmeets₂)
  simp only [hlast]
  have hpop := (Code.Carries.head hcarriesStop).1
  rw [hstop, List.length_append, ← Nat.add_assoc, ← hbefore, ← List.length_append] at hpop
  exact Machine.lockstep_isolated hr (hfront ▸ hinner.structured) hpop hfirst (Nat.lt_succ_self _)
    hmeets₁.frames hmeets₂.frames hmode (hlast ▸ hcalls) (hlast ▸ hreaches hmeets₁)

/-- A template that is included with a value only adds the same wherever the value is the same and
calls made inside have the same results. The tag was emitted at any place, for any included template
over built-in tags; two machines come to it in the same escaping mode, with frames, values below and
earlier output of their own. Then either both get behind the tag as they were, but with the same
text written, or both stop with the same error. -/
theorem insert_isolated {depth : Nat} {p : Program} {linked : LinkedProgram}
    {template tag : String} {args : List TagArg} {body : List Node} {branches : List Branch}
    {span : Span} {m₁ m₂ : Machine} {enter : LinkedProgram.Entry} {before after : Fragment}
    (henv : env.Sound) (htag : env.registry.tag? tag = some (.builtin .insert))
    (honly : args.any (TagArg.isFlag "only") = true)
    (hwith : args.findSome? TagArg.asExpr? = some e) (hfits : e.Fits)
    (hcode : node (atDepth depth) env (.tag tag args body branches span) s = .ok (code, t))
    (hlink : p.link env.registry = .ok linked) (hfilters : t.filters.toList <+: p.filters.toList)
    (hfile : p.files[s.file]? = some template) (hbefore : before.length = s.next)
    (hsetting : setting =
      ⟨linked, linked.callValue enter, Code.ofFragment (before ++ code ++ after)⟩)
    (hmeets₁ : Meets env.registry setting template s.next e v m₁)
    (hmeets₂ : Meets env.registry setting template s.next e v m₂)
    (hmode : m₂.autoescape = m₁.autoescape)
    (hcalls : setting.CallsAlike s.next (s.next + code.length) m₁ m₂.frames) :
    ∃ r, setting.Contributes s.next (s.next + code.length) m₁ r ∧
      setting.Contributes s.next (s.next + code.length) m₂ r := by
  obtain ⟨_, tags, htag', hcode⟩ := exists_tagCode hcode fun custom hcustom => by
    rw [htag] at hcustom
    cases hcustom
  rw [htag] at htag'
  obtain rfl := Tag.builtin.inj (Option.some.inj htag')
  cases hcode with
  | insert _ hcode =>
    rw [hwith, honly] at hcode
    cases insertedCode_of_eq_ok hcode with
    | missing _ =>
      have hstays (m : Machine) (hpc : m.pc = s.next) :
          setting.Contributes s.next s.next m (.ok "") := by
        obtain ⟨pc, stack, frames, ⟨text, captures⟩, autoescape, modes⟩ := m
        obtain rfl : pc = s.next := hpc
        have hwrite : Output.write ⟨text, captures⟩ "" = ⟨text, captures⟩ := by
          cases captures <;> simp [Output.write]
        rw [Setting.Contributes, hwrite]
        exact .refl
      exact ⟨.ok "", hstays m₁ hmeets₁.pc, hstays m₂ hmeets₂.pc⟩
    | @inserted _ u w frame inner pop included resolved hget _ hresolved hframe hinner hpop =>
      obtain ⟨hresolved, hrows⟩ := henv.resolved hresolved (TemplateSet.mem_of_get? hget).1 []
        (included.name :: env.including)
      have hinner := nodesOf_emitted (atDepth_sound depth) hresolved hrows hinner
      obtain ⟨stop, rfl, hstop⟩ : ∃ stop : Placed, pop = [stop] ∧ stop.instruction = .popFrame :=
        ⟨_, (op_eq_ok.mp hpop).1.symm, rfl⟩
      rw [← (op_eq_ok.mp hpop).2] at hfilters
      exact framed_isolated (s := { s with line := span.start.line, tags }) hfits hframe hinner
        hstop hlink hfilters hfile hbefore hsetting hmeets₁ hmeets₂ hmode hcalls

/-- A template with a loop, included with a title only. -/
def titled : TemplateSet where
  root := ⟨"page", [.tag "include" [.text "list", .expr (.map [(.const (.ofString "title") {},
    .const (.ofString "<b>") {})] {}), .flag "only"] [] [] {}]⟩
  loaded := [⟨"list", [.output (.var "title" {}) [] {},
    .tag "for" [.ident "x", .expr (.var "xs" {})] [.output (.var "x" {}) [] {}]
      [.mk "else" [] [.output (.var "loop" {}) [] {}] {}] {}]⟩]

/-- The templates are regular over the built-in tags. -/
theorem titled_regular : titled.Regular .initial := by
  intro t ht
  refine ⟨fun n _ => n.isBuiltin_initial, fun n hn => ?_, ?_⟩
  · rcases List.mem_cons.mp ht with rfl | ht
    · simp only [titled, Node.everywhere, Node.everywhereInBranches, List.append_nil,
        List.mem_singleton] at hn
      subst hn
      simp [Node.Fits, ArgsFit, Expr.Fits, Expr.EntriesFit, UInt64.size]
    · obtain rfl := List.mem_singleton.mp ht
      simp only [Node.everywhere, Node.everywhereInBranches, List.append_nil, List.cons_append,
        List.nil_append, List.mem_cons, List.not_mem_nil, or_false] at hn
      rcases hn with rfl | rfl | rfl | rfl <;>
        simp [Node.Fits, ArgsFit, ChainFits, Expr.Fits, Branch.args]
  · rcases List.mem_cons.mp ht with rfl | ht
    · decide
    · obtain rfl := List.mem_singleton.mp ht
      decide

/-- Code without calls makes all of its calls alike. -/
theorem callsAlike_of_no_calls {first last : Nat} {others : Frames}
    (hcode : setting.code = Code.ofFragment code)
    (h : (code.all fun p => !p.instruction.isCall) = true) :
    setting.CallsAlike first last m others := by
  intro m' args _ _ hfetch
  rw [Machine.fetch?, hcode, Code.getElem?_ofFragment] at hfetch
  obtain ⟨p, hp, hcall⟩ := Option.map_eq_some_iff.mp hfetch
  have hp := List.all_eq_true.mp h p (List.mem_of_getElem? hp)
  simp [hcall, Instruction.isCall] at hp

set_option maxRecDepth 100000 in
/-- From whatever frames it is included, the titled list is the same. -/
theorem insert_isolated_titled :
    let env : Surroundings := { registry := .initial, set := titled, resolved := ⟨[], []⟩ }
    let tag : Node := .tag "include" [.text "list", .expr (.map [(.const (.ofString "title") {},
      .const (.ofString "<b>") {})] {}), .flag "only"] [] [] {}
    titled.root.nodes = [tag] ∧
      ∃ code t linked, node (atDepth 1) env tag { files := #["page"] } = .ok (code, t) ∧
        Program.link ⟨"page", true, t.files, t.filters, [], {}, t.macros⟩ .initial = .ok linked ∧
        ∀ (enter : LinkedProgram.Entry) (m₁ m₂ : Machine), m₁.pc = 0 → m₁.frames ≠ [] →
          m₂.pc = 0 → m₂.frames ≠ [] → m₂.autoescape = m₁.autoescape →
          ∃ r,
            Setting.Contributes ⟨linked, linked.callValue enter, Code.ofFragment code⟩ 0
              code.length m₁ r ∧
            Setting.Contributes ⟨linked, linked.callValue enter, Code.ofFragment code⟩ 0
              code.length m₂ r := by
  intro env tag
  have hall : (do
      let r ← node (atDepth 1) env tag { files := #["page"] }
      let _ ← Program.link ⟨"page", true, r.2.files, r.2.filters, [], {}, r.2.macros⟩ .initial
      return (r.1.all fun p => !p.instruction.isCall, r.2.files[0]?)) =
        (.ok (true, some "page") : Result (Bool × Option String)) :=
    Result.eq_ok_of_toOption (by decide +kernel)
  obtain ⟨⟨code, t⟩, hcode, hall⟩ := Result.bind_eq_ok.mp hall
  obtain ⟨linked, hlink, hall⟩ := Result.bind_eq_ok.mp hall
  obtain ⟨hcalls, hfile⟩ := Prod.mk.inj (Except.ok.inj hall)
  refine ⟨rfl, code, t, linked, hcode, hlink, fun enter m₁ m₂ hpc₁ hne₁ hpc₂ hne₂ hmode => ?_⟩
  have henv : env.Sound :=
    ⟨titled_regular, fun _ _ hlayer => by simp [env, Resolved.layers] at hlayer⟩
  have hsetting : (⟨linked, linked.callValue enter, Code.ofFragment code⟩ : Setting) =
      ⟨linked, linked.callValue enter, Code.ofFragment ([] ++ code ++ [])⟩ := by
    rw [List.nil_append, List.append_nil]
  have hmeets (m : Machine) (hpc : m.pc = 0) (hne : m.frames ≠ []) : Meets .initial
      ⟨linked, linked.callValue enter, Code.ofFragment code⟩ "page" 0
      (.map [(.const (.ofString "title") {}, .const (.ofString "<b>") {})] {})
      (.map [("title", .ofString "<b>")]) m := ⟨hpc, hne, rfl⟩
  have hcontributes := insert_isolated henv rfl rfl rfl
    (by simp [Expr.Fits, Expr.EntriesFit, UInt64.size]) hcode hlink List.prefix_rfl hfile rfl
    hsetting (hmeets m₁ hpc₁ hne₁) (hmeets m₂ hpc₂ hne₂) hmode (callsAlike_of_no_calls rfl hcalls)
  simpa using hcontributes

/-- A template that writes what a macro of its own finds under a name, included with nothing. -/
def leaking : TemplateSet where
  root := ⟨"page", [.tag "include" [.text "peek", .expr (.map [] {}), .flag "only"] [] [] {}]⟩
  loaded := [⟨"peek", [
    .tag "macro" [.ident "peek"] [.output (.var "x" {}) [] {}] [] {},
    .output (.call (.var "peek" {}) [] {}) [] {}]⟩]

/-- The templates are regular over the built-in tags. -/
theorem leaking_regular : leaking.Regular .initial := by
  intro t ht
  refine ⟨fun n _ => n.isBuiltin_initial, fun n hn => ?_, ?_⟩
  · rcases List.mem_cons.mp ht with rfl | ht
    · simp only [leaking, Node.everywhere, Node.everywhereInBranches, List.append_nil,
        List.mem_singleton] at hn
      subst hn
      simp [Node.Fits, ArgsFit, Expr.Fits, Expr.EntriesFit, UInt64.size]
    · obtain rfl := List.mem_singleton.mp ht
      simp only [Node.everywhere, Node.everywhereInBranches, List.append_nil, List.cons_append,
        List.nil_append, List.mem_cons, List.not_mem_nil, or_false] at hn
      rcases hn with rfl | rfl | rfl <;>
        simp [Node.Fits, ArgsFit, ChainFits, Expr.Fits, Expr.AllFit]
  · rcases List.mem_cons.mp ht with rfl | ht
    · decide
    · obtain rfl := List.mem_singleton.mp ht
      decide

set_option maxRecDepth 100000 in
/-- The condition on calls cannot be left out: a macro that an included template defines and calls
itself finds the variables of the page, although the template is included with nothing only. -/
theorem not_forall_isolated :
    ¬ ∀ (s : TemplateSet) (included : String) (p : Program) (linked : LinkedProgram)
      (context context' : Value), s.Regular .initial →
      s.root.nodes = [.tag "include" [.text included, .expr (.map [] {}), .flag "only"] [] [] {}] →
      s.compile .initial true s.root.name = .ok p → p.link .initial = .ok linked →
      linked.run context = linked.run context' := by
  intro h
  have hboth : (do
      let linked ← (← leaking.compile .initial true "page").link .initial
      return (← linked.run (.map [("x", .ofString "secret")]), ← linked.run (.map []))) =
        (.ok ("secret", "") : Result (String × String)) :=
    Result.eq_ok_of_toOption (by decide +kernel)
  obtain ⟨p, hcompile, hboth⟩ := Result.bind_eq_ok.mp hboth
  obtain ⟨linked, hlink, hboth⟩ := Result.bind_eq_ok.mp hboth
  obtain ⟨text, htext, hboth⟩ := Result.bind_eq_ok.mp hboth
  obtain ⟨text', htext', hboth⟩ := Result.bind_eq_ok.mp hboth
  obtain ⟨rfl, rfl⟩ := Prod.mk.inj (Except.ok.inj hboth)
  have hequal := h leaking "peek" p linked (.map [("x", .ofString "secret")]) (.map [])
    leaking_regular rfl hcompile hlink
  rw [htext, htext'] at hequal
  exact absurd (Except.ok.inj hequal) (by decide)

end Emission

end Templating
