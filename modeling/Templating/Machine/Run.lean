import Templating.Machine.Step

/-!
# Runs

Code runs step by step until no instruction is left. Programs that were not compiled from templates
may go on for ever, so a run has a budget of steps; it is larger than any run that could be waited
for. Macros run their code on a machine of their own; calls nest at most `maxCallDepth` deep.
-/

namespace Templating

namespace Machine

/-- Run to the end of the code. -/
def runCode (linked : LinkedProgram) (invoke : Invocation) (code : Code) :
    Nat → Machine → Result Machine
  | 0, _ => fail .outOfSteps
  | budget + 1, m =>
    match m.fetch? code with
    | none => .ok m
    | some i =>
      match m.advance linked invoke code i with
      | .ok m' => runCode linked invoke code budget m'
      | .error e => .error e

/-- Run to the end of the code, showing every state before its step to an observer. -/
def watchCode {σ : Type} (observe : σ → Machine → σ) (linked : LinkedProgram) (invoke : Invocation)
    (code : Code) : Nat → σ → Machine → Result (σ × Machine)
  | 0, _, _ => fail .outOfSteps
  | budget + 1, seen, m =>
    match m.fetch? code with
    | none => .ok (seen, m)
    | some i =>
      let seen := observe seen m
      match m.advance linked invoke code i with
      | .ok m' => watchCode observe linked invoke code budget seen m'
      | .error e => .error e

/-- Watching does not change a run. -/
theorem watchCode_map_snd {σ : Type} (observe : σ → Machine → σ) (linked : LinkedProgram)
    (invoke : Invocation) (code : Code) (budget : Nat) (seen : σ) (m : Machine) :
    (watchCode observe linked invoke code budget seen m).map Prod.snd =
      runCode linked invoke code budget m := by
  induction budget generalizing seen m with
  | zero => rfl
  | succ budget ih =>
    rw [watchCode, runCode]
    cases m.fetch? code with
    | none => rfl
    | some i =>
      cases h : m.advance linked invoke code i with
      | error e => simp [h, Except.map]
      | ok m' => simpa [h] using ih (observe seen m) m'

end Machine

/-- How deep calls of macros nest at most. -/
def maxCallDepth : Nat := 500

/-- How many steps code takes at most before its run is given up. -/
def stepBudget : Nat := Nat.pow 2 62

/-- The parameters of a macro with the arguments of a call; missing arguments are undefined. -/
def bindParams (done : Entries) : List String → List Value → Entries
  | [], _ => done
  | name :: names, [] => bindParams (Entries.insert done name .undefined) names []
  | name :: names, v :: vs => bindParams (Entries.insert done name v) names vs

/-- Callables under their names. -/
def siblingEntries (siblings : List (String × Nat)) : Entries :=
  siblings.foldl (fun done (name, id) => Entries.insert done name (.callable id name)) []

/-- The frames of a macro's body: its arguments, the macros it was imported with, and the variables
of the caller's outermost frame. -/
def MacroDecl.frames (decl : MacroDecl) (args : List Value) (caller : Frames) : Frames :=
  let root := [caller.root.snapshot]
  let shared := if decl.siblings.isEmpty then root
    else { locals := siblingEntries decl.siblings } :: root
  { locals := bindParams [] decl.params args } :: shared

namespace LinkedProgram

/-- Runs the body of a macro in given frames and a given escaping mode. -/
abbrev Entry := MacroDecl → Frames → Bool → Result Value

/-- Call a value: undefined and none give undefined, macros are entered, nothing else can be
called. -/
def callValue (linked : LinkedProgram) (enter : Entry) : Invocation :=
  fun callee args frames mode =>
  match callee with
  | .callable id name =>
    match linked.program.macros[id]? with
    | none => fail (.noSuchMacro name)
    | some decl =>
      if decl.params.length < args.length then
        fail (.tooManyMacroArguments decl.name decl.params.length args.length)
      else enter decl (decl.frames args frames) mode
  | .undefined => .ok .undefined
  | .null => .ok .undefined
  | other => fail (.notCallable other.kind.name)

/-- Run the body of a macro while calls may nest so many levels deeper. What it writes is the
result, which is safe if it was escaped. -/
def enter (linked : LinkedProgram) (budget : Nat) : Nat → Entry
  | 0 => fun _ _ _ => fail .recursionLimit
  | depth + 1 => fun decl frames mode =>
    let start : Machine := { frames, autoescape := mode }
    match start.runCode linked (linked.callValue (enter linked budget depth)) decl.code budget with
    | .ok m => .ok (.text m.output.text mode)
    | .error e => .error e

/-- How the main code of a program calls values. -/
def invocation (linked : LinkedProgram) (budget : Nat) : Invocation :=
  linked.callValue (linked.enter budget maxCallDepth)

/-- The machine that starts a program over a context. -/
def start (linked : LinkedProgram) (context : Value) : Machine :=
  { frames := [{ context }], autoescape := linked.program.autoescape }

/-- Run a program over a context with a budget of steps. -/
def runWithin (linked : LinkedProgram) (budget : Nat) (context : Value) : Result String :=
  match (linked.start context).runCode linked (linked.invocation budget) linked.program.main
      budget with
  | .ok m => .ok m.output.text
  | .error e => .error e

/-- Run a program over a context. -/
def run (linked : LinkedProgram) (context : Value) : Result String :=
  linked.runWithin stepBudget context

/-- Run a program over a context and show every state of its main code to an observer. -/
def watch {σ : Type} (linked : LinkedProgram) (observe : σ → Machine → σ) (seen : σ)
    (context : Value) : Result (σ × String) :=
  match (linked.start context).watchCode observe linked (linked.invocation stepBudget)
      linked.program.main stepBudget seen with
  | .ok (seen, m) => .ok (seen, m.output.text)
  | .error e => .error e

end LinkedProgram

end Templating
