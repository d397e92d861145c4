import Templating.Value.Order
import Templating.Program.LineTable
import Templating.Error

/-!
# Programs

Templates compile to instructions for a machine with a stack of values and a stack of variable
frames. A program is the main code, the code of its macros, and the tables its instructions refer
to by number.
-/

namespace Templating

/-- An instruction. Jump targets are positions in the same code. -/
inductive Instruction where
  /-- Write text as it is. -/
  | emitRaw (text : String)
  /-- Write the top value, escaped unless it is safe or escaping is off. -/
  | emit
  /-- Store the top value in the innermost frame. -/
  | storeLocal (name : String)
  | lookup (name : String)
  | getAttr (name : String)
  | getItem
  | loadConst (value : Value)
  /-- Make a map of the topmost pairs. -/
  | buildMap (pairs : Nat)
  /-- Make a sequence of the topmost values. -/
  | buildList (count : Nat)
  | add
  | sub
  | mul
  | div
  | rem
  | neg
  | eq
  | ne
  | gt
  | ge
  | lt
  | le
  | not
  | concat
  | within
  /-- Apply a filter of the filter table to the value below so many arguments. -/
  | applyFilter (filter args : Nat)
  /-- Call the value below so many arguments. -/
  | call (args : Nat)
  | pushFrame
  /-- Push a frame over the top value; an isolated frame hides the frames below it. -/
  | pushContext (isolated : Bool)
  | popFrame
  /-- Push a frame that loops over the top value. -/
  | pushLoop
  /-- Push the next key and value of the loop, or jump when there is none. -/
  | iterate (target : Nat)
  /-- Push whether the loop had nothing to visit. -/
  | pushDidNotIterate
  | jump (target : Nat)
  | jumpIfFalse (target : Nat)
  /-- Jump if the top value is false and drop it otherwise. -/
  | jumpIfFalseOrPop (target : Nat)
  /-- Jump if the top value is true and drop it otherwise. -/
  | jumpIfTrueOrPop (target : Nat)
  /-- Turn escaping on or off by the top value. -/
  | pushAutoEscape
  | popAutoEscape
  | beginCapture
  | endCapture
  /-- Push a callable of the macro table. -/
  | buildMacro (id : Nat)
  | discardTop
  deriving BEq, Inhabited

/-- Instructions with their places. -/
structure Code where
  instructions : Array Instruction := #[]
  lines : Array LineRun := #[]
  deriving BEq, Inhabited

namespace Code

/-- Append an instruction that comes from a line of a file. -/
def push (c : Code) (i : Instruction) (file line : Nat) : Code :=
  { instructions := c.instructions.push i
    lines := LineTable.push c.lines c.instructions.size file line }

/-- Rewrite the instruction at an index, if there is one. -/
def rewrite (c : Code) (index : Nat) (change : Instruction → Instruction) : Code :=
  { c with instructions := c.instructions.modify index change }

/-- The file number and line of an instruction. -/
def place? (c : Code) (index : Nat) : Option (Nat × Nat) := LineTable.find? c.lines index

/-- The number of instructions. -/
def size (c : Code) : Nat := c.instructions.size

end Code

/-- A macro: its parameters, the macros its body sees, and its code. -/
structure MacroDecl where
  name : String
  params : List String
  /-- Names and numbers of the macros that were imported with it. -/
  siblings : List (String × Nat) := []
  code : Code
  deriving BEq, Inhabited

/-- A compiled template. -/
structure Program where
  name : String
  autoescape : Bool
  /-- The templates the program was compiled from, the root first. -/
  files : Array String := #[]
  /-- The filters the program applies. -/
  filters : Array String := #[]
  /-- The added tags the program was compiled from, sorted. -/
  tags : List String := []
  main : Code := {}
  macros : Array MacroDecl := #[]
  deriving BEq, Inhabited

namespace Program

/-- The location of an instruction of some code of the program. -/
def location? (p : Program) (c : Code) (index : Nat) : Option Location := do
  let (file, line) ← c.place? index
  let template ← p.files[file]?
  return ⟨template, line⟩

end Program

end Templating
