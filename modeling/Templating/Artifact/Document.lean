import Templating.Json.Decode
import Templating.Program.Instruction
import Templating.Value.Json

/-!
# Documents of programs

The JSON document of a compiled program and the way back. An instruction without operands is its
name; an instruction with operands is an object with its name as the only member. Reading is
lenient about everything that cannot change the meaning: unknown members, tables left out, records
written as arrays.
-/

namespace Templating

namespace Instruction

/-- The name of an instruction in documents. -/
def name : Instruction → String
  | emitRaw _ => "EmitRaw"
  | emit => "Emit"
  | storeLocal _ => "StoreLocal"
  | lookup _ => "Lookup"
  | getAttr _ => "GetAttr"
  | getItem => "GetItem"
  | loadConst _ => "LoadConst"
  | buildMap _ => "BuildMap"
  | buildList _ => "BuildList"
  | add => "Add"
  | sub => "Sub"
  | mul => "Mul"
  | div => "Div"
  | rem => "Rem"
  | neg => "Neg"
  | eq => "Eq"
  | ne => "Ne"
  | gt => "Gt"
  | ge => "Gte"
  | lt => "Lt"
  | le => "Lte"
  | not => "Not"
  | concat => "StringConcat"
  | within => "In"
  | applyFilter .. => "ApplyFilter"
  | call _ => "Call"
  | pushFrame => "PushFrame"
  | pushContext _ => "PushContext"
  | popFrame => "PopFrame"
  | pushLoop => "PushLoop"
  | iterate _ => "Iterate"
  | pushDidNotIterate => "PushDidNotIterate"
  | jump _ => "Jump"
  | jumpIfFalse _ => "JumpIfFalse"
  | jumpIfFalseOrPop _ => "JumpIfFalseOrPop"
  | jumpIfTrueOrPop _ => "JumpIfTrueOrPop"
  | pushAutoEscape => "PushAutoEscape"
  | popAutoEscape => "PopAutoEscape"
  | beginCapture => "BeginCapture"
  | endCapture => "EndCapture"
  | buildMacro _ => "BuildMacro"
  | discardTop => "DiscardTop"

/-- A number in a document. -/
def number (n : Nat) : Json := .int n

/-- The operands of an instruction, if it has any. -/
def operands? : Instruction → Option Json
  | emitRaw text => some (.text text)
  | storeLocal name => some (.text name)
  | lookup name => some (.text name)
  | getAttr name => some (.text name)
  | loadConst v => some v.toJson
  | buildMap pairs => some (number pairs)
  | buildList count => some (number count)
  | applyFilter filter args => some (.array [number filter, number args])
  | call args => some (number args)
  | pushContext isolated => some (.object [("isolated", .bool isolated)])
  | iterate target => some (number target)
  | jump target => some (number target)
  | jumpIfFalse target => some (number target)
  | jumpIfFalseOrPop target => some (number target)
  | jumpIfTrueOrPop target => some (number target)
  | buildMacro id => some (number id)
  | _ => none

/-- The document of an instruction. -/
def toJson (i : Instruction) : Json :=
  match i.operands? with
  | some operands => .object [(i.name, operands)]
  | none => .text i.name

/-- The instruction without operands of a name. -/
def plain? : String → Option Instruction
  | "Emit" => some emit
  | "GetItem" => some getItem
  | "Add" => some add
  | "Sub" => some sub
  | "Mul" => some mul
  | "Div" => some div
  | "Rem" => some rem
  | "Neg" => some neg
  | "Eq" => some eq
  | "Ne" => some ne
  | "Gt" => some gt
  | "Gte" => some ge
  | "Lt" => some lt
  | "Lte" => some le
  | "Not" => some not
  | "StringConcat" => some concat
  | "In" => some within
  | "PushFrame" => some pushFrame
  | "PopFrame" => some popFrame
  | "PushLoop" => some pushLoop
  | "PushDidNotIterate" => some pushDidNotIterate
  | "PushAutoEscape" => some pushAutoEscape
  | "PopAutoEscape" => some popAutoEscape
  | "BeginCapture" => some beginCapture
  | "EndCapture" => some endCapture
  | "DiscardTop" => some discardTop
  | _ => none

/-- A count, an index or a jump target: a machine word. -/
def word? : Json → Option Nat := Json.asNat? UInt64.size

/-- A constant that nests at most so many levels deep. -/
def constant? (levels : Nat) (j : Json) : Option Value :=
  if j.isWithin levels then some (Value.ofJson j) else none

/-- The operand of a frame over a context. -/
def isolation? (j : Json) : Option Bool :=
  match Json.fields? ["isolated"] j with
  | some [isolated] => Json.required? Json.asBool? isolated
  | _ => none

/-- The instruction of a name with operands. -/
def withOperands? (levels : Nat) (name : String) (operands : Json) : Option Instruction :=
  match name with
  | "EmitRaw" => operands.asText?.map emitRaw
  | "StoreLocal" => operands.asText?.map storeLocal
  | "Lookup" => operands.asText?.map lookup
  | "GetAttr" => operands.asText?.map getAttr
  | "LoadConst" => (constant? levels operands).map loadConst
  | "BuildMap" => (word? operands).map buildMap
  | "BuildList" => (word? operands).map buildList
  | "ApplyFilter" => (Json.asPair? word? word? operands).map fun (i, n) => applyFilter i n
  | "Call" => (word? operands).map call
  | "PushContext" => (isolation? operands).map pushContext
  | "Iterate" => (word? operands).map iterate
  | "Jump" => (word? operands).map jump
  | "JumpIfFalse" => (word? operands).map jumpIfFalse
  | "JumpIfFalseOrPop" => (word? operands).map jumpIfFalseOrPop
  | "JumpIfTrueOrPop" => (word? operands).map jumpIfTrueOrPop
  | "BuildMacro" => (word? operands).map buildMacro
  | _ => none

/-- Read an instruction. An instruction without operands may also be written with null as its
operands. -/
def ofJson? (levels : Nat) : Json → Option Instruction
  | .text name => plain? name
  | .object [(name, operands)] =>
    match plain? name, operands with
    | some i, .null => some i
    | some _, _ => none
    | none, operands => withOperands? levels name operands
  | _ => none

end Instruction

namespace LineRun

/-- The document of a run of lines. -/
def toJson (r : LineRun) : Json :=
  .object
    [("first_instruction", Instruction.number r.first),
      ("file", Instruction.number r.file),
      ("line", Instruction.number r.line)]

/-- A number of 32 bits. -/
def short? : Json → Option Nat := Json.asNat? UInt32.size

/-- Read a run of lines. -/
def ofJson? (j : Json) : Option LineRun := do
  match ← Json.fields? ["first_instruction", "file", "line"] j with
  | [first, file, line] =>
    return ⟨← Json.required? short? first, ← Json.required? short? file,
      ← Json.required? short? line⟩
  | _ => none

end LineRun

namespace Code

/-- The document of code. -/
def toJson (c : Code) : Json :=
  .object
    [("instructions", .array (c.instructions.toList.map Instruction.toJson)),
      ("line_infos", .array (c.lines.toList.map LineRun.toJson))]

/-- Read code whose constants nest at most so many levels deep. -/
def ofJson? (levels : Nat) (j : Json) : Option Code := do
  match ← Json.fields? ["instructions", "line_infos"] j with
  | [instructions, lines] =>
    let instructions ← Json.required? (Json.asList? (Instruction.ofJson? levels)) instructions
    let lines ← Json.optional? (Json.asList? LineRun.ofJson?) [] lines
    return { instructions := instructions.toArray, lines := lines.toArray }
  | _ => none

end Code

namespace MacroDecl

/-- The document of a macro. -/
def toJson (m : MacroDecl) : Json :=
  .object
    [("name", .text m.name),
      ("args", .array (m.params.map Json.text)),
      ("scope", .array (m.siblings.map fun (name, id) =>
        .array [.text name, Instruction.number id])),
      ("instructions", m.code.toJson)]

/-- Read a macro whose constants nest at most so many levels deep. -/
def ofJson? (levels : Nat) (j : Json) : Option MacroDecl := do
  match ← Json.fields? ["name", "args", "scope", "instructions"] j with
  | [name, params, siblings, code] =>
    let name ← Json.required? Json.asText? name
    let params ← Json.required? (Json.asList? Json.asText?) params
    let siblings ← Json.optional?
      (Json.asList? (Json.asPair? Json.asText? Instruction.word?)) [] siblings
    let code ← Json.required? (Code.ofJson? levels) code
    return { name, params, siblings, code }
  | _ => none

end MacroDecl

namespace Program

/-- The version of the document format. -/
def formatVersion : Nat := 1

/-- How deep documents nest at most. -/
def maxNesting : Nat := 127

/-- The levels around a constant of the main code: program, code, list, instruction. -/
def mainLevels : Nat := 4

/-- The levels around a constant of a macro: those of the main code, table and macro. -/
def macroLevels : Nat := 6

/-- Texts as a list. -/
def texts (names : List String) : Json := .array (names.map Json.text)

/-- The document of a program. -/
def toJson (p : Program) : Json :=
  .object
    [("format", Instruction.number formatVersion),
      ("name", .text p.name),
      ("autoescape", .bool p.autoescape),
      ("files", texts p.files.toList),
      ("filters", texts p.filters.toList),
      ("tags", texts p.tags),
      ("instructions", p.main.toJson),
      ("macros", .array (p.macros.toList.map MacroDecl.toJson))]

/-- The names of the fields of a program, in order. -/
def fieldNames : List String :=
  ["format", "name", "autoescape", "files", "filters", "tags", "instructions", "macros"]

/-- Read a program and the version of its format. -/
def ofJson? (j : Json) : Option (Nat × Program) := do
  match ← Json.fields? fieldNames j with
  | [format, name, autoescape, files, filters, tags, main, macros] =>
    let names := Json.asList? Json.asText?
    let format ← Json.required? LineRun.short? format
    let name ← Json.required? Json.asText? name
    let autoescape ← Json.required? Json.asBool? autoescape
    let files ← Json.required? names files
    let filters ← Json.required? names filters
    let tags ← Json.optional? names [] tags
    let main ← Json.required? (Code.ofJson? (maxNesting - mainLevels)) main
    let macros ← Json.optional?
      (Json.asList? (MacroDecl.ofJson? (maxNesting - macroLevels))) [] macros
    return (format,
      { name, autoescape, files := files.toArray, filters := filters.toArray, tags, main
        macros := macros.toArray })
  | _ => none

end Program

end Templating
