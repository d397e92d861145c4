import Templating.Program.Instruction

/-!
# Emission

Code is emitted piece by piece. A piece is a list of instructions with their places; the state knows
the position of the next instruction, so a jump over a piece is written once the piece is there. The
tables of the program grow on the way: files, filters, added tags and macros.
-/

namespace Templating

/-- An instruction and the place it comes from. -/
structure Placed where
  instruction : Instruction
  file : Nat
  line : Nat
  deriving Inhabited

/-- A piece of code. -/
abbrev Fragment := List Placed

/-- Put a piece of code together. -/
def Code.ofFragment (f : Fragment) : Code :=
  f.foldl (fun code p => code.push p.instruction p.file p.line) {}

/-- The state of emission. -/
structure EmissionState where
  /-- The position of the next instruction. -/
  next : Nat := 0
  /-- The current file, by its number in the table. -/
  file : Nat := 0
  line : Nat := 1
  files : Array String := #[]
  filters : Array String := #[]
  tags : List String := []
  macros : Array MacroDecl := #[]
  deriving Inhabited

/-- An action that emits. -/
abbrev Emission (α : Type) := StateT EmissionState Result α

namespace Emission

/-- Fail with a fault. -/
def fail {α : Type} (fault : Fault) : Emission α := fun _ => .error (.ofFault fault)

/-- The position of the next instruction. -/
def here : Emission Nat := fun s => .ok (s.next, s)

/-- The current line. -/
def currentLine : Emission Nat := fun s => .ok (s.line, s)

/-- What follows comes from this line. -/
def setLine (line : Nat) : Emission Unit := fun s => .ok ((), { s with line := line })

/-- Leave room for an instruction that is known later. -/
def reserve : Emission (Instruction → Placed) := fun s =>
  .ok (fun i => ⟨i, s.file, s.line⟩, { s with next := s.next + 1 })

/-- Emit one instruction. -/
def op (i : Instruction) : Emission Fragment := do
  let place ← reserve
  return [place i]

/-- The number of a name in a table that keeps each name once, in order of first use. -/
def intern (table : Array String) (name : String) : Nat × Array String :=
  match table.findIdx? (· == name) with
  | some i => (i, table)
  | none => (table.size, table.push name)

/-- Emit with another current file. -/
def inFile {α : Type} (name : String) (e : Emission α) : Emission α := fun s =>
  let (file, files) := intern s.files name
  match e { s with file := file, files := files } with
  | .ok (a, t) => .ok (a, { t with file := s.file })
  | .error err => .error err

/-- The name of the current file. -/
def fileName (s : EmissionState) : String := s.files[s.file]?.getD "<unknown>"

/-- Place errors that have no place yet at a line of the current file. -/
def placed {α : Type} (line : Nat) (e : Emission α) : Emission α := fun s =>
  match e s with
  | .ok result => .ok result
  | .error err => .error (err.locate (fileName s) line)

/-- Apply a filter to the value below so many arguments. -/
def applyFilter (isFilter : String → Bool) (name : String) (args : Nat) : Emission Fragment := do
  if isFilter name then
    let index ← (fun s =>
      let (index, filters) := intern s.filters name
      .ok (index, { s with filters := filters }) : Emission Nat)
    op (.applyFilter index args)
  else fail (.unknownFilter name (← currentLine))

/-- Insert a name into a sorted list without repetitions. -/
def insertSorted (name : String) : List String → List String
  | [] => [name]
  | x :: rest =>
    if name = x then x :: rest
    else if name < x then name :: x :: rest
    else x :: insertSorted name rest

/-- Note that the program uses an added tag. -/
def useTag (name : String) : Emission Unit := fun s =>
  .ok ((), { s with tags := insertSorted name s.tags })

/-- Emit the code of a macro apart from the current code and add it to the table. -/
def macroCode (name : String) (params : List String) (body : Emission Fragment) :
    Emission Nat := fun s =>
  match body { s with next := 0 } with
  | .ok (code, t) =>
    .ok (t.macros.size,
      { t with
        next := s.next
        macros := t.macros.push { name, params, code := Code.ofFragment code } })
  | .error err => .error err

/-- Let imported macros see each other. -/
def shareMacros (imported : List (String × Nat)) : Emission Unit := fun s =>
  let macros := imported.foldl
    (fun (macros : Array MacroDecl) (_, id) =>
      macros.modify id fun decl => { decl with siblings := imported })
    s.macros
  .ok ((), { s with macros := macros })

end Emission

end Templating
