import Templating.Artifact.Document
import Templating.Proofs.Json.Decode
import Templating.Proofs.Value.Json

/-!
# Programs are read back from their documents

Every part of a program has a document from which it is read back, provided that its numbers are in
the range of their fields and that its constants are data a document says exactly. Nothing else is
asked of a program: jump targets, table indices and line tables may be arbitrary.
-/

namespace Templating

open Json (asList?_map asPair?_array asNat?_int fields?_object isWithin_array isWithin_object)

namespace Instruction

/-- The operands of the instruction are machine words, or data that a document says exactly. -/
def isStorable : Instruction → Bool
  | loadConst v => v.isPlain
  | buildMap pairs => pairs < UInt64.size
  | buildList count => count < UInt64.size
  | applyFilter filter args => filter < UInt64.size && args < UInt64.size
  | call args => args < UInt64.size
  | iterate target => target < UInt64.size
  | jump target => target < UInt64.size
  | jumpIfFalse target => target < UInt64.size
  | jumpIfFalseOrPop target => target < UInt64.size
  | jumpIfTrueOrPop target => target < UInt64.size
  | buildMacro id => id < UInt64.size
  | _ => true

/-- A machine word is read back. -/
theorem word?_number {n : Nat} (h : n < UInt64.size) : word? (number n) = some n := asNat?_int h

/-- The operand of a frame is read back. -/
theorem isolation?_object (isolated : Bool) :
    isolation? (.object [("isolated", .bool isolated)]) = some isolated := rfl

/-- A constant that is plain is read back, within the levels around it. -/
theorem constant?_toJson {levels : Nat} {v : Value} (h : v.isPlain = true)
    (hlevels : v.toJson.isWithin levels = true) : constant? levels v.toJson = some v := by
  rw [constant?, if_pos hlevels, Value.ofJson_toJson h]

/-- Operands are read back under the name of their instruction. -/
theorem withOperands?_operands {levels : Nat} {i : Instruction} {operands : Json}
    (h : i.isStorable = true) (hoperands : i.operands? = some operands)
    (hlevels : operands.isWithin levels = true) :
    withOperands? levels i.name operands = some i := by
  cases i
  all_goals
    simp only [operands?, Option.some.injEq, reduceCtorEq] at hoperands
    try subst hoperands
  case loadConst v => simp [withOperands?, name, constant?_toJson h hlevels]
  case applyFilter filter args =>
    simp only [isStorable, Bool.and_eq_true, decide_eq_true_eq] at h
    simp [withOperands?, name, asPair?_array (word?_number h.1) (word?_number h.2)]
  case pushContext isolated => simp [withOperands?, name, isolation?_object]
  case emitRaw | storeLocal | lookup | getAttr => rfl
  all_goals
    simp only [isStorable, decide_eq_true_eq] at h
    simp [withOperands?, name, word?_number h]

/-- A number within 64 bits. -/
theorem fitsWord_of_mem_number {bound n : Nat} {k : Int} (h : n < bound)
    (hbound : bound ≤ UInt64.size) (hk : .int k ∈ (number n).scalars) : Json.FitsWord k := by
  obtain rfl : k = n := by simpa [number, Json.scalars] using hk
  exact ⟨by omega, by omega⟩

/-- Every integer in the document of an instruction fits into 64 bits. -/
theorem fitsWord_of_mem_toJson {i : Instruction} (h : i.isStorable = true) {k : Int}
    (hk : .int k ∈ i.toJson.scalars) : Json.FitsWord k := by
  cases i
  case loadConst v =>
    exact Value.scalars_toJson (by simpa [toJson, operands?] using hk)
  case applyFilter filter args =>
    simp only [isStorable, Bool.and_eq_true, decide_eq_true_eq] at h
    simp only [toJson, operands?, Json.scalars_object, Json.scalars_array, List.flatMap_cons,
      List.flatMap_nil, List.append_nil, List.mem_append] at hk
    exact hk.elim (fitsWord_of_mem_number h.1 le_rfl) (fitsWord_of_mem_number h.2 le_rfl)
  case buildMap | buildList | call | iterate | jump | jumpIfFalse | jumpIfFalseOrPop
      | jumpIfTrueOrPop | buildMacro =>
    simp only [isStorable, decide_eq_true_eq] at h
    exact fitsWord_of_mem_number h le_rfl (by simpa [toJson, operands?] using hk)
  all_goals exact absurd hk (by simp [toJson, operands?, Json.scalars, Json.scalarsOfMembers])

/-- An instruction with operands is not read without them. -/
theorem plain?_name (i : Instruction) :
    plain? i.name = if i.operands?.isSome then none else some i := by
  cases i <;> rfl

/-- An instruction is read back from its document. Its constant has one level less. -/
theorem ofJson?_toJson {levels : Nat} {i : Instruction} (h : i.isStorable = true)
    (hlevels : i.toJson.isWithin (levels + 1) = true) : ofJson? levels i.toJson = some i := by
  have hplain := plain?_name i
  rw [toJson] at hlevels ⊢
  cases hoperands : i.operands? with
  | none =>
    rw [hoperands] at hplain
    exact hplain
  | some operands =>
    rw [hoperands] at hplain hlevels
    have hwithin := isWithin_object.mp hlevels (i.name, operands) (by simp)
    simp only [ofJson?]
    rw [hplain]
    exact withOperands?_operands h hoperands hwithin

end Instruction

namespace LineRun

/-- The numbers of the run have 32 bits. -/
def isStorable (r : LineRun) : Bool :=
  r.first < UInt32.size && r.file < UInt32.size && r.line < UInt32.size

/-- A run of lines is read back. -/
theorem ofJson?_toJson {r : LineRun} (h : r.isStorable = true) : ofJson? r.toJson = some r := by
  simp only [isStorable, Bool.and_eq_true, decide_eq_true_eq] at h
  have hfirst : short? (Instruction.number r.first) = some r.first := asNat?_int h.1.1
  have hfile : short? (Instruction.number r.file) = some r.file := asNat?_int h.1.2
  have hline : short? (Instruction.number r.line) = some r.line := asNat?_int h.2
  have hfields := fields?_object [("first_instruction", Instruction.number r.first),
    ("file", Instruction.number r.file), ("line", Instruction.number r.line)] (by simp)
  simp only [List.map_cons, List.map_nil] at hfields
  simp [ofJson?, toJson, hfields, Json.required?, hfirst, hfile, hline]

/-- Every integer in the document of a run of lines fits into 64 bits. -/
theorem fitsWord_of_mem_toJson {r : LineRun} (h : r.isStorable = true) {k : Int}
    (hk : .int k ∈ r.toJson.scalars) : Json.FitsWord k := by
  simp only [isStorable, Bool.and_eq_true, decide_eq_true_eq] at h
  simp only [toJson, Json.scalars_object, List.flatMap_cons, List.flatMap_nil, List.append_nil,
    List.mem_append] at hk
  have hshort : UInt32.size ≤ UInt64.size := by decide
  rcases hk with hk | hk | hk
  · exact Instruction.fitsWord_of_mem_number h.1.1 hshort hk
  · exact Instruction.fitsWord_of_mem_number h.1.2 hshort hk
  · exact Instruction.fitsWord_of_mem_number h.2 hshort hk

end LineRun

namespace Code

/-- The instructions and the line runs can be stored. -/
def isStorable (c : Code) : Bool :=
  c.instructions.toList.all Instruction.isStorable && c.lines.toList.all LineRun.isStorable

/-- The documents of the instructions of code have three levels less than the document of the code
and their own object. -/
theorem ofJson?_toJson {levels : Nat} {c : Code} (h : c.isStorable = true)
    (hlevels : c.toJson.isWithin (levels + 3) = true) : ofJson? levels c.toJson = some c := by
  simp only [isStorable, Bool.and_eq_true, List.all_eq_true] at h
  have hlist := isWithin_object.mp hlevels
    ("instructions", .array (c.instructions.toList.map Instruction.toJson)) (by simp)
  have hinstructions : Json.asList? (Instruction.ofJson? levels)
      (.array (c.instructions.toList.map Instruction.toJson)) = some c.instructions.toList :=
    asList?_map fun i hi => Instruction.ofJson?_toJson (h.1 i hi)
      (isWithin_array.mp hlist _ (List.mem_map_of_mem hi))
  have hlines : Json.asList? LineRun.ofJson? (.array (c.lines.toList.map LineRun.toJson)) =
      some c.lines.toList := asList?_map fun r hr => LineRun.ofJson?_toJson (h.2 r hr)
  have hfields := fields?_object
    [("instructions", .array (c.instructions.toList.map Instruction.toJson)),
      ("line_infos", .array (c.lines.toList.map LineRun.toJson))] (by simp)
  simp only [List.map_cons, List.map_nil] at hfields
  simp [ofJson?, toJson, hfields, Json.required?, Json.optional?, hinstructions, hlines]

/-- Every integer in the document of code fits into 64 bits. -/
theorem fitsWord_of_mem_toJson {c : Code} (h : c.isStorable = true) {k : Int}
    (hk : .int k ∈ c.toJson.scalars) : Json.FitsWord k := by
  simp only [isStorable, Bool.and_eq_true, List.all_eq_true] at h
  simp only [toJson, Json.scalars_object, Json.scalars_array, List.flatMap_cons, List.flatMap_nil,
    List.append_nil, List.mem_append, List.mem_flatMap, List.mem_map] at hk
  rcases hk with ⟨_, ⟨i, hi, rfl⟩, hk⟩ | ⟨_, ⟨r, hr, rfl⟩, hk⟩
  · exact Instruction.fitsWord_of_mem_toJson (h.1 i hi) hk
  · exact LineRun.fitsWord_of_mem_toJson (h.2 r hr) hk

end Code

/-- No integer stands in a list of texts. -/
theorem Json.notMem_scalars_texts {k : Int} {names : List String} :
    Json.int k ∉ (Json.array (names.map Json.text)).scalars := by
  rw [Json.scalars_array]
  simp [List.mem_flatMap, Json.scalars]

/-- Texts are read back. -/
theorem Json.asList?_texts (names : List String) :
    Json.asList? Json.asText? (.array (names.map Json.text)) = some names :=
  asList?_map fun _ _ => rfl

namespace MacroDecl

/-- The numbers of the siblings are machine words, and the code can be stored. -/
def isStorable (m : MacroDecl) : Bool :=
  m.siblings.all (fun sibling => sibling.2 < UInt64.size) && m.code.isStorable

/-- A macro is read back from its document. -/
theorem ofJson?_toJson {levels : Nat} {m : MacroDecl} (h : m.isStorable = true)
    (hlevels : m.toJson.isWithin (levels + 4) = true) : ofJson? levels m.toJson = some m := by
  simp only [isStorable, Bool.and_eq_true, List.all_eq_true, decide_eq_true_eq] at h
  have hcode := Code.ofJson?_toJson h.2
    (isWithin_object.mp hlevels ("instructions", m.code.toJson) (by simp))
  have hsiblings : Json.asList? (Json.asPair? Json.asText? Instruction.word?)
      (.array (m.siblings.map fun s => .array [.text s.1, Instruction.number s.2])) =
        some m.siblings :=
    asList?_map fun sibling hsibling =>
      asPair?_array rfl (Instruction.word?_number (h.1 sibling hsibling))
  have hfields := fields?_object [("name", .text m.name),
    ("args", .array (m.params.map Json.text)),
    ("scope", .array (m.siblings.map fun s => .array [.text s.1, Instruction.number s.2])),
    ("instructions", m.code.toJson)] (by simp)
  simp only [List.map_cons, List.map_nil] at hfields
  simp [ofJson?, toJson, hfields, Json.required?, Json.optional?, Json.asText?,
    Json.asList?_texts, hsiblings, hcode]

/-- Every integer in the document of a macro fits into 64 bits. -/
theorem fitsWord_of_mem_toJson {m : MacroDecl} (h : m.isStorable = true) {k : Int}
    (hk : .int k ∈ m.toJson.scalars) : Json.FitsWord k := by
  simp only [isStorable, Bool.and_eq_true, List.all_eq_true, decide_eq_true_eq] at h
  rw [toJson, Json.scalars_object] at hk
  simp only [List.flatMap_cons, List.flatMap_nil, List.append_nil, List.mem_append] at hk
  rcases hk with hk | hk | hk | hk
  · simp [Json.scalars] at hk
  · exact absurd hk Json.notMem_scalars_texts
  · rw [Json.scalars_array] at hk
    obtain ⟨_, hpair, hk⟩ := List.mem_flatMap.mp hk
    obtain ⟨sibling, hsibling, rfl⟩ := List.mem_map.mp hpair
    refine Instruction.fitsWord_of_mem_number (h.1 sibling hsibling) le_rfl ?_
    simpa [Json.scalars_array, Json.scalars, Json.scalarsOfItems] using hk
  · exact Code.fitsWord_of_mem_toJson h.2 hk

end MacroDecl

namespace Program

/-- The code of the program can be stored, and its document nests as deep as documents may. -/
structure IsStorable (p : Program) : Prop where
  main : p.main.isStorable = true
  macros : ∀ m ∈ p.macros, m.isStorable = true
  nesting : p.toJson.isWithin maxNesting = true

/-- A program is read back from its document. -/
theorem ofJson?_toJson {p : Program} (h : p.IsStorable) :
    ofJson? p.toJson = some (formatVersion, p) := by
  have hmain : Code.ofJson? (maxNesting - mainLevels) p.main.toJson = some p.main :=
    Code.ofJson?_toJson h.main
      (isWithin_object.mp h.nesting ("instructions", p.main.toJson) (by simp))
  have hlist := isWithin_object.mp h.nesting
    ("macros", .array (p.macros.toList.map MacroDecl.toJson)) (by simp)
  have hmacros : Json.asList? (MacroDecl.ofJson? (maxNesting - macroLevels))
      (.array (p.macros.toList.map MacroDecl.toJson)) = some p.macros.toList :=
    asList?_map fun m hm => MacroDecl.ofJson?_toJson (h.macros m (Array.mem_toList_iff.mp hm))
      (isWithin_array.mp hlist _ (List.mem_map_of_mem hm))
  have hnames : ∀ names, Json.asList? Json.asText? (texts names) = some names := Json.asList?_texts
  have hformat : LineRun.short? (Instruction.number formatVersion) = some formatVersion :=
    asNat?_int (by decide)
  have hfields := fields?_object [("format", Instruction.number formatVersion),
    ("name", .text p.name), ("autoescape", .bool p.autoescape), ("files", texts p.files.toList),
    ("filters", texts p.filters.toList), ("tags", texts p.tags),
    ("instructions", p.main.toJson),
    ("macros", .array (p.macros.toList.map MacroDecl.toJson))] (by simp)
  simp only [List.map_cons, List.map_nil] at hfields
  simp [ofJson?, fieldNames, toJson, hfields, Json.required?, Json.optional?, Json.asText?,
    Json.asBool?, hnames, hformat, hmain, hmacros]

/-- Every integer in the document of a program fits into 64 bits. -/
theorem fitsWord_of_mem_toJson {p : Program} (h : p.IsStorable) {k : Int}
    (hk : .int k ∈ p.toJson.scalars) : Json.FitsWord k := by
  rw [toJson, Json.scalars_object] at hk
  simp only [List.flatMap_cons, List.flatMap_nil, List.append_nil, List.mem_append] at hk
  rcases hk with hk | hk | hk | hk | hk | hk | hk | hk
  · exact Instruction.fitsWord_of_mem_number (by decide) le_rfl hk
  · simp [Json.scalars] at hk
  · simp [Json.scalars] at hk
  · exact absurd hk Json.notMem_scalars_texts
  · exact absurd hk Json.notMem_scalars_texts
  · exact absurd hk Json.notMem_scalars_texts
  · exact Code.fitsWord_of_mem_toJson h.main hk
  · rw [Json.scalars_array] at hk
    obtain ⟨_, hdocument, hk⟩ := List.mem_flatMap.mp hk
    obtain ⟨m, hm, rfl⟩ := List.mem_map.mp hdocument
    exact MacroDecl.fitsWord_of_mem_toJson (h.macros m (Array.mem_toList_iff.mp hm)) hk

end Program

end Templating
