import Templating.Machine.Frame
import Templating.Machine.Output
import Templating.Program.Instruction
import Templating.Value.Arithmetic
import Templating.Registry

/-!
# Steps

A machine runs code with a stack of values and a stack of frames. Carrying out one instruction is a
function from machine to machine that may fail; only calls reach beyond it, through a function that
is handed in. The stack is lenient: popping an empty one gives undefined, and popping more values
than there are gives those that are there.
-/

namespace Templating

/-- A program together with the filters its filter table names. -/
structure LinkedProgram where
  program : Program
  filters : Array Filter

instance : Inhabited LinkedProgram := ⟨⟨default, #[]⟩⟩

/-- Find the filters a program applies. -/
def Program.link (p : Program) (registry : Registry) : Result LinkedProgram := do
  let filters ← p.filters.mapM fun name =>
    match registry.filter? name with
    | some filter => (.ok filter : Result Filter)
    | none => fail (.filterNotRegistered name)
  return ⟨p, filters⟩

/-- The state of running code. -/
structure Machine where
  /-- The position of the next instruction. -/
  pc : Nat := 0
  /-- The values, the top one first. -/
  stack : List Value := []
  frames : Frames := [{}]
  output : Output := {}
  /-- Output is being escaped. -/
  autoescape : Bool
  /-- The escaping modes to come back to, the next one first. -/
  modes : List Bool := []
  deriving Inhabited

/-- How a value is called with arguments, from which frames and in which escaping mode. -/
abbrev Invocation := Value → List Value → Frames → Bool → Result Value

namespace Machine

/-- Go on with the next instruction. -/
def next (m : Machine) : Machine := { m with pc := m.pc + 1 }

/-- Go on at a position. -/
def goto (m : Machine) (target : Nat) : Machine := { m with pc := target }

/-- Put a value on top. -/
def push (m : Machine) (v : Value) : Machine := { m with stack := v :: m.stack }

/-- Take the top value. -/
def pop (m : Machine) : Value × Machine :=
  match m.stack with
  | [] => (.undefined, m)
  | v :: rest => (v, { m with stack := rest })

/-- Take so many of the topmost values, in the order they were put there. -/
def popMany (m : Machine) (count : Nat) : List Value × Machine :=
  ((m.stack.take count).reverse, { m with stack := m.stack.drop count })

/-- Take two values; the second one is the top. -/
def popTwo (m : Machine) : Value × Value × Machine :=
  let (b, m) := m.pop
  let (a, m) := m.pop
  (a, b, m)

/-- The number of values in pairs. Counts have the width of a machine word. -/
def pairedCount (pairs : Nat) : Nat := pairs * 2 % UInt64.size

/-- The text of a map key. -/
def keyText (key : Value) : String :=
  match key.asText? with
  | some s => s
  | none => key.display

/-- Entries from keys and values that follow each other; a last key without a value is left out. -/
def pairUp (done : Entries) : List Value → Entries
  | key :: value :: rest => pairUp (Entries.insert done (keyText key) value) rest
  | _ => done

/-- Replace the top value. -/
def unary (m : Machine) (f : Value → Value) : Machine :=
  let (a, m) := m.pop
  (m.push (f a)).next

/-- Replace the two topmost values by one. -/
def binary (m : Machine) (f : Value → Value → Value) : Machine :=
  let (a, b, m) := m.popTwo
  (m.push (f a b)).next

/-- Replace the two topmost values by the result of an operator that may fail. -/
def arithmetic (m : Machine) (f : Value → Value → Result Value) : Result Machine :=
  let (a, b, m) := m.popTwo
  match f a b with
  | .ok v => .ok (m.push v).next
  | .error e => .error e

/-- Replace the two topmost values by whether they are in an accepted order. -/
def comparison (m : Machine) (accept : Ordering → Bool) : Machine :=
  m.binary fun a b => .bool (Value.ordered accept a b)

/-- A condition on the top value, which is false if there is none. -/
def topIsTrue (m : Machine) : Bool :=
  match m.stack with
  | [] => false
  | v :: _ => v.isTrue

/-- Write text as it is. -/
def write : Machine → String → Machine
  | ⟨pc, stack, frames, output, autoescape, modes⟩, s =>
    ⟨pc, stack, frames, output.write s, autoescape, modes⟩

/-- Push a frame. -/
def pushFrame (m : Machine) (f : Frame) : Machine := { m with frames := f :: m.frames }

/-- Give the next pair of the innermost loop to its body, or leave the loop. -/
def iterate (m : Machine) (target : Nat) : Result Machine :=
  match Frames.currentLoop? m.frames with
  | none => fail .iterateOutsideLoop
  | some l =>
    match l.next? with
    | none => .ok (m.goto target)
    | some (visit, l) =>
      let frames := Frames.store (Frames.setLoop m.frames l) "loop" visit.info
      .ok (({ m with frames }.push visit.key).push visit.value).next

/-- What a filter applied by some code is told. -/
def filterPlace (linked : LinkedProgram) (code : Code) (m : Machine) : FilterPlace :=
  { template := match linked.program.location? code m.pc with
      | some place => place.template
      | none => linked.program.name
    autoescape := m.autoescape }

/-- Apply a filter of the filter table. -/
def applyFilter (linked : LinkedProgram) (code : Code) (m : Machine) (filter args : Nat) :
    Result Machine :=
  let (arguments, rest) := m.popMany args
  let (subject, rest) := rest.pop
  match linked.filters[filter]? with
  | none => fail (.noSuchFilterIndex filter)
  | some f =>
    match f (filterPlace linked code m) subject arguments with
    | .ok v => .ok (rest.push v).next
    | .error e => .error e

/-- Call a value. -/
def call (invoke : Invocation) (m : Machine) (args : Nat) : Result Machine :=
  let (arguments, rest) := m.popMany args
  let (callee, rest) := rest.pop
  match invoke callee arguments m.frames m.autoescape with
  | .ok v => .ok (rest.push v).next
  | .error e => .error e

/-- Carry out an instruction. -/
def execute (linked : LinkedProgram) (invoke : Invocation) (code : Code) (m : Machine) :
    Instruction → Result Machine
  | .emitRaw text => .ok (m.write text).next
  | .emit =>
    let (v, m) := m.pop
    .ok (m.write (Output.valueText v m.autoescape)).next
  | .storeLocal name =>
    let (v, m) := m.pop
    .ok { m with frames := Frames.store m.frames name v }.next
  | .lookup name => .ok (m.push (Frames.load m.frames name)).next
  | .getAttr name => .ok (m.unary fun v => v.attr name)
  | .getItem => .ok (m.binary Value.item)
  | .loadConst v => .ok (m.push v).next
  | .buildMap pairs =>
    let (items, m) := m.popMany (pairedCount pairs)
    .ok (m.push (.map (pairUp [] items))).next
  | .buildList count =>
    let (items, m) := m.popMany count
    .ok (m.push (.seq items)).next
  | .add => m.arithmetic Value.add
  | .sub => m.arithmetic Value.sub
  | .mul => m.arithmetic Value.mul
  | .div => m.arithmetic Value.div
  | .rem => m.arithmetic Value.rem
  | .neg =>
    let (v, m) := m.pop
    match v.neg with
    | .ok v => .ok (m.push v).next
    | .error e => .error e
  | .eq => .ok (m.binary fun a b => .bool (Value.looseEq a b))
  | .ne => .ok (m.binary fun a b => .bool (!Value.looseEq a b))
  | .gt => .ok (m.comparison (· == .gt))
  | .ge => .ok (m.comparison (· != .lt))
  | .lt => .ok (m.comparison (· == .lt))
  | .le => .ok (m.comparison (· != .gt))
  | .not => .ok (m.unary fun v => .bool (!v.isTrue))
  | .concat => .ok (m.binary Value.concat)
  | .within => .ok (m.binary fun a b => .bool (Value.contains b a))
  | .applyFilter filter args => m.applyFilter linked code filter args
  | .call args => m.call invoke args
  | .pushFrame => .ok (m.pushFrame {}).next
  | .pushContext isolated =>
    let (context, m) := m.pop
    .ok (m.pushFrame { context, isolated }).next
  | .popFrame => .ok { m with frames := Frames.pop m.frames }.next
  | .pushLoop =>
    let (subject, m) := m.pop
    .ok (m.pushFrame { loop? := some (LoopState.ofValue subject) }).next
  | .iterate target => m.iterate target
  | .pushDidNotIterate =>
    let did := match Frames.currentLoop? m.frames with
      | some l => l.didIterate
      | none => false
    .ok (m.push (.bool (!did))).next
  | .jump target => .ok (m.goto target)
  | .jumpIfFalse target =>
    let (v, m) := m.pop
    .ok (if v.isTrue then m.next else m.goto target)
  | .jumpIfFalseOrPop target => .ok (if m.topIsTrue then m.pop.2.next else m.goto target)
  | .jumpIfTrueOrPop target => .ok (if m.topIsTrue then m.goto target else m.pop.2.next)
  | .pushAutoEscape =>
    let (v, m) := m.pop
    .ok { m with modes := m.autoescape :: m.modes, autoescape := v.isTrue }.next
  | .popAutoEscape =>
    match m.modes with
    | [] => .ok m.next
    | mode :: rest => .ok { m with modes := rest, autoescape := mode }.next
  | .beginCapture => .ok { m with output := m.output.beginCapture }.next
  | .endCapture =>
    let (v, output) := m.output.endCapture m.autoescape
    .ok ({ m with output }.push v).next
  | .buildMacro id =>
    match linked.program.macros[id]? with
    | none => fail (.noSuchMacroIndex id)
    | some decl => .ok (m.push (.callable id decl.name)).next
  | .discardTop => .ok m.pop.2.next

/-- Place the error of an instruction. -/
def locateError (linked : LinkedProgram) (code : Code) (pc : Nat) (e : Error) : Error :=
  match linked.program.location? code pc with
  | some place => e.locate place.template place.line
  | none => e

/-- The next instruction, if there is one. -/
def fetch? (m : Machine) (code : Code) : Option Instruction := code.instructions[m.pc]?

/-- Carry out the instruction at the position of the machine and place its error. -/
def advance (linked : LinkedProgram) (invoke : Invocation) (code : Code) (m : Machine)
    (i : Instruction) : Result Machine :=
  let pc := m.pc
  match m.execute linked invoke code i with
  | .ok m' => .ok m'
  | .error e => .error (locateError linked code pc e)

/-- Carry out the next instruction, nothing if there is none. -/
def step? (linked : LinkedProgram) (invoke : Invocation) (code : Code) (m : Machine) :
    Option (Result Machine) :=
  (m.fetch? code).map fun i => m.advance linked invoke code i

end Machine

end Templating
