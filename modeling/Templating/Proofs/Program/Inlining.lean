import Templating.Proofs.Program.Isolation
import Templating.Proofs.Program.Relocation
import Templating.Proofs.Program.Termination

/-!
# Including as inlining

A template that does nothing but include another one compiles to the code of that one in a frame of
its own.
-/

namespace Templating

open Emission (Surroundings Elsewhere bind_eq_ok lift_eq_ok inFile_eq_ok op_eq_ok pure_eq_ok)

namespace Emission

variable {E : Elsewhere} {env : Surroundings} {s u : EmissionState} {body : Fragment}

/-- Another template in a frame of its own. -/
theorem insertTemplate_eq_ok {included : String} {isOptional : Bool} {template : Template}
    {resolved : Resolved} (hget : env.set.get? included = some template)
    (hincluding : env.including.contains template.name = false)
    (hresolve : env.set.resolve template = .ok resolved)
    (hbody : nodesOf E
      { env with resolved, blocks := [], including := template.name :: env.including }
      resolved.body { s with next := s.next + 1 } = .ok (body, u)) :
    insertTemplate E env included none false isOptional s =
      .ok ([⟨.pushFrame, s.file, s.line⟩] ++ body ++ [⟨.popFrame, u.file, u.line⟩],
        { u with next := u.next + 1 }) := by
  simp only [insertTemplate, hget, hincluding, Bool.false_eq_true, if_false, includeFrame]
  refine bind_eq_ok.mpr ⟨resolved, s, lift_eq_ok.mpr ⟨hresolve, rfl⟩, ?_⟩
  refine bind_eq_ok.mpr ⟨_, _, op_eq_ok.mpr ⟨rfl, rfl⟩, ?_⟩
  refine bind_eq_ok.mpr ⟨body, u, hbody, ?_⟩
  exact bind_eq_ok.mpr ⟨_, _, op_eq_ok.mpr ⟨rfl, rfl⟩, rfl⟩

/-- The code of a tag that includes a template is the code of that template, but for the added tags
that are noted. -/
theorem node_include_eq_ok (env : Surroundings) (included : String) (span : Span)
    (htag : env.registry.tag? "include" = some (.builtin .insert)) :
    ∃ tags, ∀ {code : Fragment} {t : EmissionState},
      insertTemplate E env included none false false { s with line := span.start.line, tags } =
        .ok (code, t) → node E env (.include included span) s = .ok (code, t) := by
  cases hnote : env.registry.isCustomTag "include" with
  | true =>
    refine ⟨insertSorted "include" s.tags, fun {code t} h => ?_⟩
    simp only [node, Node.include, htag, hnote, if_true]
    refine bind_eq_ok.mpr ⟨(), _, setLine_eq_ok.mpr rfl, placed_eq_ok.mpr ?_⟩
    exact bind_eq_ok.mpr ⟨(), _, useTag_eq_ok.mpr rfl, h⟩
  | false =>
    refine ⟨s.tags, fun {code t} h => ?_⟩
    simp only [node, Node.include, htag, hnote, Bool.false_eq_true, if_false]
    exact bind_eq_ok.mpr ⟨(), _, setLine_eq_ok.mpr rfl, placed_eq_ok.mpr h⟩

/-- The code of a single node from some template. -/
theorem nodesOf_singleton_eq_ok (env : Surroundings) {file : String} {n : Node} {code : Fragment}
    {t : EmissionState} (h : E env [n] (entered s file) = .ok (code, t)) :
    nodesOf E env [(file, n)] s = .ok (code, { t with file := s.file }) :=
  bind_eq_ok.mpr ⟨code, _, inFile_eq_ok.mpr ⟨t, h, rfl⟩, bind_eq_ok.mpr ⟨[], _,
    pure_eq_ok.mpr ⟨rfl, rfl⟩, pure_eq_ok.mpr ⟨List.append_nil code, rfl⟩⟩⟩

end Emission

/-- The second program runs the main code of the first one, moved on, in a frame of its own. -/
structure Program.FramedIn (p q : Program) (f g : Fragment) (push pop : Placed) : Prop where
  name : q.name = p.name
  autoescape : q.autoescape = p.autoescape
  filters : q.filters = p.filters
  macros : List.Forall₂ (MacroDecl.Moves (fun _ => True) ⟨p.files, q.files⟩) p.macros.toList
    q.macros.toList
  inner : p.main = Code.ofFragment f
  moves : f.Moves (fun _ => True) 1 ⟨p.files, q.files⟩ g
  outer : q.main = Code.ofFragment ([push] ++ g ++ [pop])
  push : push.instruction = .pushFrame
  pop : pop.instruction = .popFrame

namespace TemplateSet

variable {s : TemplateSet} {registry : Registry} {own : String} {span : Span}

open Emission (Portable atDepth)

/-- A template under another one that does nothing but include it compiles to its own code at the
next position, in a frame of its own, with the same filters and macros. -/
theorem compileAt_under {autoescape : Bool} {name : String} {depth : Nat} {p : Program}
    (htag : registry.tag? "include" = some (.builtin .insert)) (hown : own ≠ s.root.name)
    (hwithin : s.Within (· ≠ own) (s.under (.including own s.root.name span)))
    (hbuiltin : ∀ t ∈ s.templates, Node.Throughout (Node.IsBuiltin registry) t.nodes)
    (hline : span.start.line = 1)
    (h : s.compileAt registry autoescape name depth = .ok p) :
    ∃ (q : Program) (f g : Fragment) (push pop : Placed),
      (s.under (.including own s.root.name span)).compileAt registry autoescape name (depth + 1) =
        .ok q ∧ p.FramedIn q f g push pop := by
  obtain ⟨⟨f, t⟩, hemit, h⟩ := Result.bind_eq_ok.mp h
  obtain rfl := Except.ok.inj h
  obtain ⟨u, hroot, rfl⟩ := inFile_eq_ok.mp hemit
  obtain ⟨resolved, _, hlift, hrows⟩ := bind_eq_ok.mp hroot
  obtain ⟨hresolve, rfl⟩ := lift_eq_ok.mp hlift
  have hC : Value.OfEmission fun _ => True := ⟨trivial, fun _ => trivial, fun _ => trivial⟩
  have hportable : ∀ t ∈ s.templates, Portable (fun _ => True) (· ≠ own) registry t.nodes :=
    fun t ht n hn =>
      ⟨hbuiltin t ht n hn, n.loads_of_forall fun _ => trivial, hwithin.names t ht n hn⟩
  obtain ⟨henv, hbody⟩ := portable_of_resolve hportable hresolve [s.root.name]
  let outside : Surroundings :=
    { registry, set := s.under (.including own s.root.name span)
      resolved := ⟨[(own, .include s.root.name span)], [(own, [])]⟩, including := [own] }
  let inside : Surroundings := { outside with resolved, including := [s.root.name, own] }
  have hmoves : Surroundings.Moves (· ≠ own)
      { registry, set := s, resolved, including := [s.root.name] } inside :=
    ⟨rfl, rfl, rfl, fun name hname => by simp [inside, hname], hwithin⟩
  let start : EmissionState := Emission.entered (Emission.entered {} own) own
  obtain ⟨tags, hnode⟩ := Emission.node_include_eq_ok (E := atDepth depth) (s := start) outside
    s.root.name span htag
  have hstart : EmissionState.Moves (fun _ => True) 1 False
      { ({} : EmissionState) with
        file := (Emission.intern #[] s.root.name).1, files := (Emission.intern #[] s.root.name).2 }
      { start with line := span.start.line, tags, next := start.next + 1 } :=
    ⟨rfl, False.elim, hline, rfl, .nil⟩
  obtain ⟨g, v, hg, hmoved, -, hcode⟩ := Emission.nodesOf_moves
    (Emission.atDepth_moves hC depth 0) hmoves henv hbody hstart hrows
  have hget : outside.set.get? s.root.name = some s.root := by
    rw [hwithin.get? _ (Ne.symm hown)]
    simp [get?]
  have hincluding : outside.including.contains s.root.name = false := by
    simpa [outside] using Ne.symm hown
  have hnode := hnode (Emission.insertTemplate_eq_ok hget hincluding
    (hwithin.resolve List.mem_cons_self hresolve) hg)
  have hrow := Emission.nodesOf_singleton_eq_ok (E := atDepth (depth + 1))
    (s := Emission.entered {} own) outside (Emission.nodes_singleton_eq_ok.mpr hnode)
  have hemit' : (s.under (.including own s.root.name span)).emitRoot registry
      (atDepth (depth + 1)) {} =
        .ok ([⟨.pushFrame, start.file, span.start.line⟩] ++ g ++ [⟨.popFrame, v.file, v.line⟩],
          { v with next := v.next + 1, file := 0 }) :=
    inFile_eq_ok.mpr ⟨_, bind_eq_ok.mpr
      ⟨_, _, lift_eq_ok.mpr ⟨resolve_including _ _ _ _, rfl⟩, hrow⟩, rfl⟩
  exact ⟨_, f, g, _, _, Result.bind_eq_ok.mpr ⟨_, hemit', rfl⟩, rfl, rfl, hmoved.filters,
    hmoved.macros, rfl, hcode _ (.refl _), rfl, rfl, rfl⟩

end TemplateSet

namespace Frames

/-- A frame without context over a frame that has nothing but the context. -/
def overContext (context : Value) (f : Frame) : Frames := [{ locals := f.locals }, { context }]

/-- Variables and context look the same in one frame and in two. -/
theorem standsFor_overContext (context : Value) :
    StandsFor (fun f => f.context = context ∧ f.isolated = false) (overContext context) where
  ne_nil _ := List.cons_ne_nil _ _
  load {f} h name := by
    obtain ⟨rfl, hisolated⟩ := h
    cases hlocal : Entries.get? f.locals name <;>
      simp [overContext, load, Frame.get?, hlocal, hisolated, Entries.get?]
  store h _ _ := ⟨rfl, h⟩

end Frames

namespace LinkedProgram

open Machine (Setting Stretch Below Lockstep Traced)

variable {linked linked' : LinkedProgram} {f g : Fragment} {push pop : Placed} {context : Value}
  {budget : Nat}

/-- What the main code of a program runs in. -/
def mainSetting (linked : LinkedProgram) (budget : Nat) : Setting :=
  ⟨linked, linked.invocation budget, linked.program.main⟩

/-- The calls that the main code of a program makes in a run over a context have the same results
over nothing but the context. -/
def CallsIgnoreLocals (linked : LinkedProgram) (context : Value) (budget : Nat) : Prop :=
  ∀ {m : Machine} {args : Nat},
    (linked.mainSetting budget).Reaches 0 linked.program.main.size (linked.start context) m →
      m.fetch? linked.program.main = some (.call args) →
        linked.invocation budget (m.popMany args).2.pop.1 (m.popMany args).1 m.frames
            m.autoescape =
          linked.invocation budget (m.popMany args).2.pop.1 (m.popMany args).1 [{ context }]
            m.autoescape

/-- What a program that runs another one in a frame of its own puts below the machine of that. -/
def beneathMain (context : Value) : Below where
  shift := 1
  outermost := Frames.overContext context

/-- A program is found in one that runs it in a frame of its own. -/
theorem carries_main (h : linked.program.FramedIn linked'.program f g push pop)
    (hfilters : linked'.filters = linked.filters) :
    (beneathMain context).Carries (linked.mainSetting budget) (linked'.mainSetting budget) := by
  have hmacros := (resembles_of_moves hfilters h.macros).macros
  have hcode : linked'.program.main.Carries 1 g := h.outer ▸ Code.ofFragment_carries [push] g [pop]
  have hat {pc : Nat} {i : Instruction} (hi : linked.program.main.instructions[pc]? = some i) :
      linked'.program.main.instructions[1 + pc]? = some (i.shifted 1) ∧
        linked'.program.location? linked'.program.main (1 + pc) =
          linked.program.location? linked.program.main pc := by
    rw [h.inner] at hi ⊢
    obtain ⟨a, b, ha, hb, rfl, hmoves⟩ := h.moves.exists_placed hi
    obtain ⟨hinstruction, hplace⟩ := hcode hb
    obtain ⟨place, hone, hother⟩ := hmoves.location (Code.place?_ofFragment ha) hplace
    exact ⟨hinstruction.trans (congrArg some hmoves.instruction), hother.trans hone.symm⟩
  refine ⟨fun hi => (hat hi).1, fun hi => (hat hi).2, h.name, hfilters, fun id => ?_⟩
  have hmacro := hmacros id
  simp only [mainSetting]
  generalize linked.program.macros[id]? = d?, linked'.program.macros[id]? = e? at hmacro
  cases hmacro with
  | none => rfl
  | some hdecl => exact congrArg some hdecl.name

/-- Nothing below leaves a machine as it is. -/
theorem above_nothing (m : Machine) : m.above {} = m := by
  have hframes : ∀ fs : Frames, fs.above (fun f => [f]) = fs := by
    intro fs
    induction fs with
    | nil => rfl
    | cons f rest ih =>
      cases rest with
      | nil => rfl
      | cons g rest => exact congrArg (f :: ·) ih
  obtain ⟨pc, stack, frames, ⟨text, captures⟩, autoescape, modes⟩ := m
  simp [Machine.above, hframes, Output.above, Output.write]

/-- A machine that runs main code over a context suits itself, and the main code that does the same
in a frame of its own, if calls ignore the variables that it stored. -/
theorem suits_main (h : linked.program.FramedIn linked'.program f g push pop)
    (hfilters : linked'.filters = linked.filters)
    (hcalls : linked.CallsIgnoreLocals context budget) {t : Traced}
    (hreaches : (linked.mainSetting budget).Reaches 0 linked.program.main.size
      (linked.start context) t.machine)
    (hframes : t.machine.frames ≠ []) :
    Below.Suits {} (linked.mainSetting budget) (.whole (linked.mainSetting budget)) t.machine ∧
      (beneathMain context).Suits (linked.mainSetting budget)
        (.whole (linked'.mainSetting budget)) t.machine := by
  have hwithin {i : Instruction} (hfetch : t.machine.fetch? linked.program.main = some i) :
      t.machine.pc < linked.program.main.size := (Array.getElem?_eq_some_iff.mp hfetch).1
  have hsize : linked.program.main.size + 2 = linked'.program.main.size := by
    have hlength : f.length = g.length := List.Forall₂.length_eq h.moves
    rw [h.inner, h.outer, Code.size_ofFragment, Code.size_ofFragment, hlength]
    simp
  have hresembles := resembles_of_moves hfilters h.macros
  refine ⟨⟨fun hfetch => ?_, fun args _ => ?_⟩, fun hfetch => ?_, fun args hfetch => ?_⟩
  · exact ⟨Nat.zero_le _, (Nat.zero_add _).symm ▸ hwithin hfetch⟩
  · have hsame : t.machine.frames.above (fun f => [f]) = t.machine.frames :=
      congrArg Machine.frames (above_nothing t.machine)
    exact congrArg (fun fs => linked.invocation budget (t.machine.popMany args).2.pop.1
      (t.machine.popMany args).1 fs t.machine.autoescape) hsame
  · have hlt := hwithin hfetch
    refine ⟨Nat.zero_le _, ?_⟩
    show 1 + t.machine.pc < linked'.program.main.size
    omega
  · have hroot : Frames.root (t.machine.frames.above (Frames.overContext context)) = { context } :=
      Frames.root_above (fun _ => rfl) hframes
    refine Eq.trans ?_ (hcalls hreaches hfetch).symm
    show linked'.invocation budget _ _ (t.machine.frames.above (Frames.overContext context)) _ = _
    rw [hresembles.invocation_eq]
    exact callValue_congr (congrArg Frame.snapshot hroot)

/-- Main code and the same one in a frame of its own go on in lockstep over a context, if calls
ignore the variables that were stored. -/
theorem lockstep_main (h : linked.program.FramedIn linked'.program f g push pop)
    (hfilters : linked'.filters = linked.filters) (hstructured : Structured 0 f.instructions 0 0)
    (hcalls : linked.CallsIgnoreLocals context budget) :
    Lockstep (.whole (linked.mainSetting budget)) (.whole (linked'.mainSetting budget))
      (fun m n => m.pc = f.length ∧ n.pc = f.length + 1 ∧ n.output.text = m.output.text)
      (linked.start context) ((linked.start context).above (beneathMain context)) := by
  have hholds : linked.program.main.Holds 0 f.instructions :=
    h.inner ▸ Code.holds_ofFragment f
  have hleads : Traced.Leads (linked.mainSetting budget) 1 0 (0 + f.instructions.length) 0 0 :=
    Traced.leads_of_structured hstructured hholds
  have hself : Below.Carries {} (linked.mainSetting budget) (linked.mainSetting budget) :=
    ⟨fun hi => by simpa using hi, fun _ => by simp, rfl, rfl, fun _ => rfl⟩
  have hstands : Frames.StandsFor
      (fun fr => fr.context = context ∧ fr.isolated = false) fun fr => [fr] :=
    ⟨fun _ => List.cons_ne_nil _ _, fun _ _ => rfl, fun hfr _ _ => ⟨rfl, hfr⟩⟩
  have hereditary : Traced.Hereditary (linked.mainSetting budget) 1 fun t =>
      (linked.mainSetting budget).Reaches 0 linked.program.main.size (linked.start context)
        t.machine →
      t.machine.frames.Outermost (fun fr => fr.context = context ∧ fr.isolated = false) →
      Lockstep (.whole (linked.mainSetting budget)) (.whole (linked'.mainSetting budget))
        (fun m n => m.pc = f.length ∧ n.pc = f.length + 1 ∧ n.output.text = m.output.text)
        (t.machine.above {}) (t.machine.above (beneathMain context)) :=
    Machine.hereditary_lockstep Nat.one_pos hself (carries_main h hfilters) hstands
      (Frames.standsFor_overContext context)
      (fun hreaches _ hsteps => hreaches.tail (by rwa [above_nothing, above_nothing] at hsteps))
      fun _ hreaches houtermost => suits_main h hfilters hcalls hreaches houtermost.ne_nil
  have hat : Traced.At ⟨linked.start context, []⟩ 0 0 [] := ⟨rfl, [], rfl, rfl⟩
  have hlockstep := hleads hereditary hat ⟨Nat.one_pos, rfl⟩ (fun t hat' _ _ _ => ?_) .refl
    ⟨{ context }, rfl, rfl, rfl⟩
  · rwa [above_nothing] at hlockstep
  · have hpc : t.machine.pc = f.length := by
      rw [hat'.pc, Fragment.length_instructions, Nat.zero_add]
    refine .last ⟨?_, ?_, rfl⟩
    · rw [above_nothing, hpc]
    · show 1 + t.machine.pc = f.length + 1
      omega

/-- A machine that no instruction is left for is done. -/
theorem runCode_of_ended {l : LinkedProgram} {invoke : Invocation} {code : Code} {m : Machine}
    (h : code.size ≤ m.pc) (budget : Nat) :
    m.runCode l invoke code (budget + 1) = .ok m := by
  have hfetch : m.fetch? code = none := Array.getElem?_eq_none_iff.mpr h
  simp only [Machine.runCode, hfetch]

/-- Main code and the same one in a frame of its own come to the same end over a context, if calls
ignore the variables that were stored and the budgets are large enough. -/
theorem text_eq_of_framedIn (h : linked.program.FramedIn linked'.program f g push pop)
    (hfilters : linked'.filters = linked.filters) (hstructured : Structured 0 f.instructions 0 0)
    (hcalls : linked.CallsIgnoreLocals context budget) {r r' : Result Machine} {least : Nat}
    (hr : ∀ steps, least ≤ steps → (linked.start context).runCode linked
      (linked.invocation budget) linked.program.main steps = r)
    (hr' : ∀ steps, least ≤ steps → (linked'.start context).runCode linked'
      (linked'.invocation budget) linked'.program.main steps = r') :
    (r'.map fun m => m.output.text) = r.map fun m => m.output.text := by
  have hlength : f.length = g.length := List.Forall₂.length_eq h.moves
  have hcode (pc : Nat) : linked'.program.main.instructions[pc]? =
      ([push] ++ g ++ [pop])[pc]?.map Placed.instruction := by
    rw [h.outer, Code.getElem?_ofFragment]
  have hstart (steps : Nat) : (linked'.start context).runCode linked' (linked'.invocation budget)
      linked'.program.main (steps + 1) =
        ((linked.start context).above (beneathMain context)).runCode linked'
          (linked'.invocation budget) linked'.program.main steps := by
    have hpush : (linked'.start context).fetch? linked'.program.main = some .pushFrame :=
      (hcode 0).trans (congrArg some h.push)
    have hentered : ((linked'.start context).pushFrame {}).next =
        (linked.start context).above (beneathMain context) := by
      simp only [start, h.autoescape]
      rfl
    simp only [Machine.runCode, hpush, Machine.advance, Machine.execute, hentered]
  rcases (lockstep_main h hfilters hstructured hcalls).exists_steps with
    ⟨m, n, steps, ⟨hm, hn, htext⟩, hone, hother⟩ | ⟨e, steps, hone, hother⟩
  · have hpop : n.fetch? linked'.program.main = some .popFrame := by
      rw [Machine.fetch?, hcode, hn, hlength, List.getElem?_append_right (by simp)]
      simp [h.pop]
    have hend : linked'.program.main.size ≤ n.pc + 1 := by
      rw [h.outer, Code.size_ofFragment, hn, hlength]
      simp
    have hended : linked.program.main.size ≤ m.pc := by
      rw [h.inner, Code.size_ofFragment]
      exact Nat.le_of_eq hm.symm
    have hdone : r = .ok m := by
      rw [← hr (least + 1 + steps) (by omega)]
      exact (hone (least + 1)).trans (runCode_of_ended hended least)
    have hdone' : r' = .ok { n with frames := n.frames.pop }.next := by
      rw [← hr' (least + 2 + steps + 1) (by omega), hstart]
      refine (hother (least + 2)).trans ?_
      show n.runCode linked' (linked'.invocation budget) linked'.program.main (least + 1 + 1) = _
      rw [Machine.runCode]
      simp only [hpop, Machine.advance, Machine.execute]
      exact runCode_of_ended hend least
    rw [hdone, hdone']
    exact congrArg Except.ok htext
  · have hfails : r = .error e := by
      rw [← hr (least + steps) (by omega)]
      exact hone least
    have hfails' : r' = .error e := by
      rw [← hr' (least + steps + 1) (by omega), hstart]
      exact hother least
    rw [hfails, hfails']

end LinkedProgram

end Templating
