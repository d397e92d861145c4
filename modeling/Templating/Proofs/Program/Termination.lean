import Templating.Proofs.Machine.ExpressionCode
import Templating.Proofs.Machine.Termination
import Templating.Proofs.Program.Soundness

/-!
# Runs of compiled programs come to an end

The main code and the macros of a compiled program are structured code, and each call goes one level
deeper, of which there are finitely many. By induction on the levels that are left the results of
calls settle: the body of a macro comes to an end with the settled calls one level deeper, and with
a budget that is large enough none of these calls is given up.
-/

namespace Templating

namespace LinkedProgram

variable {linked : LinkedProgram} {filters macros files : Nat}

/-- Calls of values settle if entering macros does, and are conclusive then. -/
theorem callValue_settles {enters : Nat → Entry} {limit : Entry}
    (h : ∀ decl ∈ linked.program.macros, ∀ frames : Frames, 0 < frames.length → ∀ mode,
      (limit decl frames mode).Conclusive ∧
        Settles (fun budget => enters budget decl frames mode) (limit decl frames mode)) :
    (linked.callValue limit).Conclusive ∧
      Invocation.Settles (fun budget => linked.callValue (enters budget))
        (linked.callValue limit) := by
  suffices ∀ callee args frames mode,
      (linked.callValue limit callee args frames mode).Conclusive ∧
        Settles (fun budget => linked.callValue (enters budget) callee args frames mode)
          (linked.callValue limit callee args frames mode) from
    ⟨fun callee args frames mode => (this callee args frames mode).1,
      fun callee args frames mode => (this callee args frames mode).2⟩
  intro callee args frames mode
  cases callee with
  | undefined => exact ⟨.ok _, 0, fun _ _ => rfl⟩
  | null => exact ⟨.ok _, 0, fun _ _ => rfl⟩
  | callable id name =>
    cases hdecl : linked.program.macros[id]? with
    | none =>
      simp only [callValue, hdecl]
      exact ⟨.fail (by simp), 0, fun _ _ => rfl⟩
    | some decl =>
      simp only [callValue, hdecl]
      split
      · exact ⟨.fail (by simp), 0, fun _ _ => rfl⟩
      · exact h decl (Array.mem_of_getElem? hdecl) _ (length_frames_pos decl args frames) mode
  | _ => exact ⟨.fail (by simp), 0, fun _ _ => rfl⟩

/-- Entering a macro one level above calls that settle: its body comes to an end. -/
theorem enter_succ_settles {enters : Nat → Entry} {limit : Invocation} {decl : MacroDecl}
    (hdecl : decl.Sound filters macros files) (hfilters : linked.FiltersConclusive)
    (hlimit : limit.Conclusive)
    (hsettles : Invocation.Settles (fun budget => linked.callValue (enters budget)) limit)
    {frames : Frames} (hframes : 0 < frames.length) (mode : Bool) :
    ∃ r : Result Machine, r.Conclusive ∧
      Settles (fun budget => Machine.runCode linked (linked.callValue (enters budget)) decl.code
        budget { frames, autoescape := mode }) r := by
  obtain ⟨body, hcode, _, hstructured⟩ := hdecl.code
  have hends : Machine.Traced.Ends ⟨linked, limit, decl.code⟩ frames.length
      ⟨{ frames, autoescape := mode }, []⟩ :=
    hereditary_of_structured hcode hstructured rfl rfl hframes rfl rfl
      Machine.Traced.hereditary_ends fun _ => Machine.Traced.Ends.of_fetch?_eq_none
  obtain ⟨r, hr, least, hrun⟩ := hends.exists_runCode hsettles hlimit hfilters
  exact ⟨r, hr, least, fun budget hbudget => hrun budget budget hbudget hbudget⟩

/-- At every level entering macros settles, and is conclusive then. -/
theorem exists_enter_limit
    (hmacros : ∀ decl ∈ linked.program.macros, decl.Sound filters macros files)
    (hfilters : linked.FiltersConclusive) (depth : Nat) :
    ∃ limit : Entry, ∀ decl ∈ linked.program.macros, ∀ frames : Frames, 0 < frames.length →
      ∀ mode, (limit decl frames mode).Conclusive ∧
        Settles (fun budget => linked.enter budget depth decl frames mode)
          (limit decl frames mode) := by
  induction depth with
  | zero =>
    exact ⟨fun _ _ _ => fail .recursionLimit, fun _ _ _ _ _ =>
      ⟨.fail (by simp), 0, fun _ _ => rfl⟩⟩
  | succ depth ih =>
    obtain ⟨below, hbelow⟩ := ih
    obtain ⟨hlimit, hsettles⟩ := callValue_settles hbelow
    have hresults (decl : MacroDecl) (frames : Frames) (mode : Bool) :
        ∃ r : Result Value, decl ∈ linked.program.macros → 0 < frames.length → r.Conclusive ∧
          Settles (fun budget => linked.enter budget (depth + 1) decl frames mode) r := by
      by_cases h : decl ∈ linked.program.macros ∧ 0 < frames.length
      · obtain ⟨r, hr, least, hleast⟩ := enter_succ_settles (hmacros decl h.1) hfilters hlimit
          hsettles h.2 mode
        refine ⟨r.map fun m => .text m.output.text mode, fun _ _ => ⟨hr.map _, least,
          fun budget hbudget => ?_⟩⟩
        simp only [enter, hleast budget hbudget]
        cases r <;> rfl
      · exact ⟨.ok .undefined, fun hdecl hframes => absurd ⟨hdecl, hframes⟩ h⟩
    choose limit hlimit using hresults
    exact ⟨limit, fun decl hdecl frames hframes mode => hlimit decl frames mode hdecl hframes⟩

/-- The main code of a program of structured code comes to a conclusive end over a context, as soon
as the budgets of its own steps and of its calls are large enough. -/
theorem exists_runMain {main : Fragment} (hmain : linked.program.main = Code.ofFragment main)
    (hstructured : Structured 0 main.instructions 0 0)
    (hmacros : ∀ decl ∈ linked.program.macros, decl.Sound filters macros files)
    (hfilters : linked.FiltersConclusive) (context : Value) :
    ∃ r : Result Machine, r.Conclusive ∧ ∃ least, ∀ budget steps, least ≤ budget → least ≤ steps →
      (linked.start context).runCode linked (linked.invocation budget) linked.program.main steps =
        r := by
  obtain ⟨limit, hentering⟩ := exists_enter_limit hmacros hfilters maxCallDepth
  obtain ⟨hlimit, hsettles⟩ := callValue_settles hentering
  have hends : Machine.Traced.Ends ⟨linked, linked.callValue limit, linked.program.main⟩ 1
      ⟨linked.start context, []⟩ :=
    hereditary_of_structured (m := linked.start context) hmain hstructured rfl rfl Nat.one_pos rfl
      rfl
      Machine.Traced.hereditary_ends fun _ => Machine.Traced.Ends.of_fetch?_eq_none
  exact hends.exists_runCode hsettles hlimit hfilters

/-- A program gives what its main code comes to an end with. -/
theorem runWithin_settles {context : Value} {r : Result Machine}
    (h : ∃ least, ∀ budget steps, least ≤ budget → least ≤ steps →
      (linked.start context).runCode linked (linked.invocation budget) linked.program.main steps =
        r) :
    Settles (fun budget => linked.runWithin budget context) (r.map fun m => m.output.text) := by
  obtain ⟨least, hrun⟩ := h
  refine ⟨least, fun budget hbudget => ?_⟩
  simp only [runWithin, hrun budget budget hbudget hbudget]
  cases r <;> rfl

/-- A program is linked with filters of the registry. -/
theorem mem_filters_of_link {p : Program} {registry : Registry}
    (h : p.link registry = .ok linked) {f : Filter} (hf : f ∈ linked.filters) :
    ∃ name, registry.filter? name = some f := by
  obtain ⟨i, hi, rfl⟩ := Array.mem_iff_getElem.mp hf
  obtain ⟨name, -, hfilter⟩ := Program.exists_filter_name h (Array.getElem?_eq_getElem hi)
  exact ⟨name, hfilter⟩

/-- What holds of all filters of the registry holds of those that a program is linked with. -/
theorem forall_filters_of_link {P : Filter → Prop} {p : Program} {registry : Registry}
    (hfilters : ∀ row ∈ registry.filters, P row.2) (h : p.link registry = .ok linked) :
    ∀ f ∈ linked.filters, P f := by
  intro f hf
  obtain ⟨name, hname⟩ := mem_filters_of_link h hf
  obtain ⟨row, hrow, rfl⟩ := Option.map_eq_some_iff.mp hname
  exact hfilters row (List.mem_of_find?_eq_some hrow)

end LinkedProgram

namespace TemplateSet

variable {s : TemplateSet} {registry : Registry} {autoescape : Bool} {name : String} {depth : Nat}
  {p : Program} {linked : LinkedProgram}

/-- The main code of a program compiled from regular templates comes to a conclusive end over every
context, as soon as budgets are large enough. -/
theorem exists_runMain (hregular : s.Regular registry)
    (hfilters : ∀ row ∈ registry.filters, row.2.Conclusive)
    (h : s.compileAt registry autoescape name depth = .ok p)
    (hlink : p.link registry = .ok linked) (context : Value) :
    ∃ r : Result Machine, r.Conclusive ∧ ∃ least, ∀ budget steps, least ≤ budget → least ≤ steps →
      (linked.start context).runCode linked (linked.invocation budget) linked.program.main steps =
        r := by
  obtain ⟨main, t, hmain, _, _, hmacros, hsound, _, hstructured⟩ := compileAt_eq_ok hregular h
  obtain ⟨hprogram, _⟩ := Program.link_eq_ok hlink
  subst hprogram
  exact LinkedProgram.exists_runMain hmain hstructured (hmacros ▸ hsound.macros)
    (LinkedProgram.forall_filters_of_link hfilters hlink) context

/-- Runs of what templates with built-in tags and filters compile to come to an end. Over every
context the result settles: from some number of steps on a larger budget makes no difference, and
the result is output or an error, never that the run was given up. Neither a loop nor a recursion of
macros, however they are nested, goes on without end. -/
theorem compileAt_runs_settle {s : TemplateSet} {registry : Registry} {autoescape : Bool}
    {name : String} {depth : Nat} {p : Program} {linked : LinkedProgram}
    (hregular : s.Regular registry) (hfilters : registry.filters ⊆ Filter.builtin)
    (h : s.compileAt registry autoescape name depth = .ok p)
    (hlink : p.link registry = .ok linked) (context : Value) :
    ∃ r : Result String, r.Conclusive ∧
      Settles (fun budget => linked.runWithin budget context) r := by
  obtain ⟨r, hr, hrun⟩ := exists_runMain hregular
    (fun row hrow => Filter.builtin_conclusive row (hfilters hrow)) h hlink context
  exact ⟨_, hr.map _, LinkedProgram.runWithin_settles hrun⟩

/-- A loop that calls a macro, which calls itself until it comes to zero. -/
def descending : TemplateSet where
  root := ⟨"countdown", [
    .tag "macro" [.ident "down", .ident "n"]
      [.tag "if" [.expr (.var "n" {})]
        [.output (.var "n" {}) [] {},
          .output (.call (.var "down" {}) [.binary .sub (.var "n" {}) (.const (.int 1) {}) {}] {})
            [] {}] [] {}] [] {},
    .tag "for" [.ident "x", .expr (.var "xs" {})]
      [.output (.call (.var "down" {}) [.var "x" {}] {}) [] {}] [] {}]⟩
  loaded := []

/-- The template is regular over the built-in tags. -/
theorem descending_regular : descending.Regular .initial := by
  intro t ht
  obtain rfl := List.mem_singleton.mp ht
  refine ⟨fun n _ => n.isBuiltin_initial, fun n hn => ?_, by decide⟩
  simp only [descending, Node.everywhere, Node.everywhereInBranches, List.append_nil,
    List.cons_append, List.nil_append, List.mem_cons, List.not_mem_nil, or_false] at hn
  rcases hn with rfl | rfl | rfl | rfl | rfl | rfl <;>
    simp [Node.Fits, Emission.ArgsFit, Emission.ChainFits, Expr.Fits, Expr.AllFit]

/-- What the macro compiles to. -/
def descent : Array Instruction := #[.lookup "n", .jumpIfFalse 10, .lookup "n", .emit,
  .lookup "down", .lookup "n", .loadConst (.int 1), .sub, .call 1, .emit]

/-- What the root compiles to. -/
def descents : Array Instruction := #[.buildMacro 0, .storeLocal "down", .lookup "xs", .pushLoop,
  .iterate 12, .storeLocal "x", .discardTop, .lookup "down", .lookup "x", .call 1, .emit, .jump 4,
  .popFrame]

section

variable {linked : LinkedProgram} {invoke : Invocation} {fault : Fault}

variable (linked) in
/-- Where the call of the macro fails its body does. -/
theorem runCode_descent {code : Code} (hcode : code.instructions = descent) {frames : Frames}
    {mode : Bool} {v w : Value} (hv : Frames.load frames "n" = v) (htrue : v.isTrue = true)
    (hw : v.sub (.int 1) = .ok w)
    (hcall : ∃ e, invoke (Frames.load frames "down") [w] frames mode = .error e ∧ e.fault = fault)
    (budget : Nat) :
    ∃ e, Machine.runCode linked invoke code (budget + 9) { frames, autoescape := mode } =
      .error e ∧ e.fault = fault := by
  subst hv
  obtain ⟨e, hcall, hfault⟩ := hcall
  refine ⟨_, ?_, (Machine.fault_locateError linked code 8 e).trans hfault⟩
  simp [Machine.runCode, Machine.fetch?, hcode, descent, Machine.advance, Machine.execute,
    Machine.push, Machine.next, Machine.pop, htrue, Machine.arithmetic, Machine.popTwo, hw,
    Machine.call, Machine.popMany, hcall, Machine.write]

/-- Where the first call of the macro fails the root does. -/
theorem runCode_descents (hmain : linked.program.main.instructions = descents) {decl : MacroDecl}
    (hdecl : linked.program.macros[0]? = some decl) {v : Value}
    (hcall : ∀ frames : Frames, frames.root.get? "down" = some (.callable 0 decl.name) →
      ∃ e, invoke (.callable 0 decl.name) [v] frames linked.program.autoescape = .error e ∧
        e.fault = fault)
    (budget : Nat) :
    ∃ e, (linked.start (.map [("xs", .seq [v])])).runCode linked invoke linked.program.main
      (budget + 10) = .error e ∧ e.fault = fault := by
  obtain ⟨e, hcall, hfault⟩ := hcall
    [{ locals := [("loop", (LoopState.mk [(.ofNat 0, v)] 1 0).info (.ofNat 0)), ("x", v)]
       loop? := some ⟨[], 1, 1⟩ },
      { locals := [("down", .callable 0 decl.name)], context := .map [("xs", .seq [v])] }] rfl
  refine ⟨_, ?_, (Machine.fault_locateError linked linked.program.main 9 e).trans hfault⟩
  simp [Machine.runCode, Machine.fetch?, hmain, descents, Machine.advance, Machine.execute,
    LinkedProgram.start, hdecl, Machine.push, Machine.next, Machine.pop, Machine.pushFrame,
    Machine.iterate, Frames.currentLoop?, LoopState.ofValue, Value.pairs, LoopState.next?,
    Frames.setLoop, Machine.call, Machine.popMany, Frames.store, Frames.load, Frame.get?,
    Frame.store, Entries.insert, Entries.get?, hcall]

/-- The number that the macro is called with when calls may nest so many levels deeper. -/
def below (left : Nat) : Int64 := .ofInt ((left : Int) - 501)

/-- The number is true, and that of a level more is more by one. -/
theorem below_succ {left : Nat} (h : left < 500) :
    (Value.int (below (left + 1))).isTrue = true ∧
      (Value.int (below (left + 1))).sub (.int 1) = .ok (.int (below left)) := by
  have hword : (below (left + 1)).toInt = left - 500 := by
    rw [below, Int64.toInt_ofInt_of_le (by simp; omega) (by simp; omega)]
    omega
  have hsub : Number.sub? (below (left + 1)) 1 = some (below left) := by
    have hone : (1 : Int64).toInt = 1 := rfl
    rw [Number.sub?, hword, hone, Number.toWord?, if_pos (by simp [Number.fitsInt64]; omega)]
    rw [below, show (left : Int) - 500 - 1 = left - 501 by omega]
  have hexact : (Value.int (below (left + 1))).sub (.int 1) =
      Value.exactly "-" (below (left + 1)) 1 (Number.sub? (below (left + 1)) 1) := rfl
  refine ⟨?_, by rw [hexact, hsub]; rfl⟩
  have hne : below (left + 1) ≠ 0 := fun hzero => by
    rw [hzero, show (0 : Int64).toInt = 0 from rfl] at hword
    omega
  simpa [Value.isTrue] using hne

/-- However many levels are left, the calls of the macro over such a number use them up. -/
theorem enter_below {decl : MacroDecl} (hdecl : linked.program.macros[0]? = some decl)
    (hparams : decl.params = ["n"]) (hsiblings : decl.siblings = [])
    (hcode : decl.code.instructions = descent) (budget : Nat) {left : Nat} (hleft : left ≤ 500)
    {caller : Frames} {name : String}
    (hdown : caller.root.get? "down" = some (.callable 0 name)) (mode : Bool) :
    ∃ e, linked.enter (budget + 9) left decl (decl.frames [.int (below left)] caller) mode =
      .error e ∧ e.fault = .recursionLimit := by
  induction left generalizing caller with
  | zero => exact ⟨_, rfl, rfl⟩
  | succ left ih =>
    set frames := decl.frames [.int (below (left + 1))] caller with hset
    have hframes : frames = [{ locals := [("n", .int (below (left + 1)))] },
        caller.root.snapshot] := by
      simp [hset, MacroDecl.frames, hsiblings, hparams, bindParams, Entries.insert]
    obtain ⟨htrue, hsub⟩ := below_succ hleft
    have hn : Frames.load frames "n" = .int (below (left + 1)) := by
      simp [hframes, Frames.load, Frame.get?, Entries.get?]
    have hroot : frames.root.get? "down" = some (.callable 0 name) := hframes ▸ hdown
    have hcallee : Frames.load frames "down" = .callable 0 name := by
      have hown : ({ locals := [("n", .int (below (left + 1)))] } : Frame).get? "down" = none := by
        simp [Frame.get?, Entries.get?]
      have hdown : caller.root.snapshot.get? "down" = some (.callable 0 name) := hdown
      simp only [hframes, Frames.load, hown, hdown, Bool.false_eq_true, if_false]
    have hcall : ∃ e, linked.callValue (linked.enter (budget + 9) left)
        (Frames.load frames "down") [.int (below left)] frames mode = .error e ∧
          e.fault = .recursionLimit := by
      obtain ⟨e, he, hfault⟩ := ih (Nat.le_of_lt hleft) hroot
      exact ⟨e, by simp [LinkedProgram.callValue, hcallee, hdecl, hparams, he], hfault⟩
    obtain ⟨e, he, hfault⟩ := runCode_descent linked hcode hn htrue hsub hcall budget
    exact ⟨e, by simp only [LinkedProgram.enter, he], hfault⟩

end

/-- Two instructions are the same one of those that the templates compile to. -/
def agree : Instruction → Instruction → Bool
  | .buildMacro a, .buildMacro b | .call a, .call b | .iterate a, .iterate b => a == b
  | .jump a, .jump b | .jumpIfFalse a, .jumpIfFalse b => a == b
  | .storeLocal a, .storeLocal b | .lookup a, .lookup b => a == b
  | .loadConst (.int a), .loadConst (.int b) => a == b
  | .sub, .sub | .emit, .emit | .pushLoop, .pushLoop | .popFrame, .popFrame => true
  | .discardTop, .discardTop => true
  | _, _ => false

/-- Code of instructions that agree is the same. -/
theorem eq_of_isEqv_agree {is js : List Instruction} (h : is.isEqv js agree = true) : is = js := by
  induction is generalizing js with
  | nil => cases js <;> simp_all [List.isEqv]
  | cons i is ih =>
    cases js with
    | nil => simp [List.isEqv] at h
    | cons j js =>
      obtain ⟨hfirst, hrest⟩ := Bool.and_eq_true_iff.mp h
      rw [ih hrest]
      unfold agree at hfirst
      split at hfirst <;> simp_all

/-- A program is what the template compiles to. -/
def isDescending (p : Program) : Bool :=
  p.main.instructions.toList.isEqv descents.toList agree && match p.macros[0]? with
    | some decl => decl.params == ["n"] && decl.siblings.isEmpty &&
        decl.code.instructions.toList.isEqv descent.toList agree
    | none => false

/-- Over a number that the macro never takes to zero the depth of calls ends such a program. -/
theorem run_below {linked : LinkedProgram} (h : isDescending linked.program = true) :
    ∃ e, linked.run (.map [("xs", .seq [.int (-1)])]) = .error e ∧ e.fault = .recursionLimit := by
  obtain ⟨hmain, h⟩ := Bool.and_eq_true_iff.mp h
  split at h
  · next decl hdecl =>
    simp only [Bool.and_eq_true, beq_iff_eq, List.isEmpty_iff] at h
    obtain ⟨⟨hparams, hsiblings⟩, hcode⟩ := h
    have hbudget : stepBudget = stepBudget - 10 + 10 := by decide
    have hcall (frames : Frames)
        (hdown : frames.root.get? "down" = some (.callable 0 decl.name)) :
        ∃ e, linked.invocation stepBudget (.callable 0 decl.name) [.int (-1)] frames
          linked.program.autoescape = .error e ∧ e.fault = .recursionLimit := by
      obtain ⟨e, he, hfault⟩ := enter_below hdecl hparams hsiblings
        (Array.toList_inj.mp (eq_of_isEqv_agree hcode)) (stepBudget - 9) (Nat.le_refl 500) hdown
        linked.program.autoescape
      exact ⟨e, by simpa [LinkedProgram.invocation, LinkedProgram.callValue, hdecl, hparams],
        hfault⟩
    obtain ⟨e, he, hfault⟩ := runCode_descents (Array.toList_inj.mp (eq_of_isEqv_agree hmain))
      hdecl hcall (stepBudget - 10)
    rw [← hbudget] at he
    exact ⟨e, by rw [LinkedProgram.run, LinkedProgram.runWithin, he], hfault⟩
  · cases h

set_option maxRecDepth 100000 in
/-- Over numbers the macro comes to an end by itself, over a number that it never takes to zero the
depth of calls ends it; both results settle. -/
theorem compileAt_runs_settle_descending :
    ∃ p linked, descending.compile .initial true "countdown" = .ok p ∧
      p.link .initial = .ok linked ∧
      linked.run (.map [("xs", .seq [.int 2, .int 1])]) = .ok "211" ∧
      (∃ e, linked.run (.map [("xs", .seq [.int (-1)])]) = .error e ∧ e.fault = .recursionLimit) ∧
      ∀ context, ∃ r : Result String, r.Conclusive ∧
        Settles (fun budget => linked.runWithin budget context) r := by
  have hends : (do
      let linked ← (← descending.compile .initial true "countdown").link .initial
      return (isDescending linked.program,
        ← linked.run (.map [("xs", .seq [.int 2, .int 1])]))) =
          (.ok (true, "211") : Result (Bool × String)) :=
    Result.eq_ok_of_toOption (by decide +kernel)
  obtain ⟨p, hcompile, hends⟩ := Result.bind_eq_ok.mp hends
  obtain ⟨linked, hlink, hends⟩ := Result.bind_eq_ok.mp hends
  obtain ⟨text, hrun, hends⟩ := Result.bind_eq_ok.mp hends
  obtain ⟨hshape, rfl⟩ := Prod.mk.inj (Except.ok.inj hends)
  exact ⟨p, linked, hcompile, hlink, hrun, run_below hshape, fun context =>
    compileAt_runs_settle descending_regular (List.Subset.refl _) hcompile hlink context⟩

end TemplateSet

end Templating
