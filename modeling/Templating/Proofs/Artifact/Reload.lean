import Templating.Engine.Basic
import Templating.Proofs.Artifact.Text
import Templating.Proofs.Json.Written
import Templating.Proofs.Machine.ExpressionCode
import Templating.Proofs.Program.Relocation
import Templating.Proofs.Template.Constants

/-!
# Artifacts run like the programs they were written from

The constants of a compiled program are literals, so its document nests a few levels deep only and
says almost everything exactly. What is read back is the program under the name it was written with,
but for one thing: infinite floats are written as null, so none stands in their place. If there are
none, no run can tell the two programs apart, since each instruction has a location and the name of
a program is of no consequence then.

Numbers have to fit into the fields of a document, and the text of each finite float has to be read
as this float.
-/

namespace Templating

namespace Json

variable {j : Json}

/-- Every float of the document is finite. -/
def IsFinite (j : Json) : Prop := ∀ x ∈ j.floats, x.isFinite = true

/-- The items of a finite array are finite. -/
theorem IsFinite.item {items : List Json} (h : (array items).IsFinite) (hj : j ∈ items) :
    j.IsFinite := fun x hx => h x (mem_floats.mpr (mem_scalars_of_item hj (mem_floats.mp hx)))

/-- The members of a finite object are finite. -/
theorem IsFinite.member {members : List (String × Json)} (h : (object members).IsFinite)
    {m : String × Json} (hm : m ∈ members) : m.2.IsFinite := fun x hx =>
  h x (mem_floats.mpr (mem_scalars_of_member hm (mem_floats.mp hx)))

end Json

namespace Value

/-- The literal with none in place of a float that is not finite. -/
def asWritten : Value → Value
  | float x => if x.isFinite then float x else null
  | v => v

variable {v : Value}

/-- What a literal is written as is a literal. -/
theorem IsLiteral.asWritten (h : v.IsLiteral) : v.asWritten.IsLiteral := by
  cases v with
  | float x => rw [Value.asWritten]; split <;> trivial
  | _ => exact h

/-- The document of what a literal is written as. -/
theorem IsLiteral.toJson_asWritten (h : v.IsLiteral) : v.asWritten.toJson = v.toJson.asWritten := by
  cases v with
  | float x =>
    simp only [Value.asWritten, toJson, Json.asWritten]
    split <;> rfl
  | undefined | seq | map | callable => exact h.elim
  | _ => rfl

/-- A finite literal is written as it is. -/
theorem asWritten_eq_self (h : v.toJson.IsFinite) : v.asWritten = v := by
  cases v with
  | float x => exact if_pos (h x (Json.mem_floats.mpr List.mem_cons_self))
  | _ => rfl

/-- A document says literals exactly. -/
theorem IsLiteral.isPlain (h : v.IsLiteral) : v.isPlain = true := by
  cases v with
  | text s safe => simpa [Value.isPlain, IsLiteral] using h
  | undefined | seq | map | callable => exact h.elim
  | _ => rfl

/-- The document of a finite literal nests no deeper. -/
theorem IsLiteral.isWithin (h : v.IsLiteral) (hfinite : v.toJson.IsFinite) (levels : Nat) :
    v.toJson.isWithin levels = true := by
  cases v with
  | float x => exact hfinite x (Json.mem_floats.mpr List.mem_cons_self)
  | undefined | seq | map | callable => exact h.elim
  | _ => rfl

end Value

open Value (IsLiteral)

namespace Instruction

/-- The numbers of the instruction are machine words. -/
def fits : Instruction → Bool
  | loadConst _ => true
  | i => i.isStorable

/-- The instruction with none in place of a constant that is an infinite float. -/
def asWritten : Instruction → Instruction
  | loadConst v => loadConst v.asWritten
  | i => i

variable {i : Instruction}

/-- What an instruction is written as has the same numbers. -/
@[simp]
theorem fits_asWritten (i : Instruction) : i.asWritten.fits = i.fits := by cases i <;> rfl

/-- What an instruction with a literal is written as has a literal. -/
theorem loads_asWritten (h : i.Loads IsLiteral) : i.asWritten.Loads IsLiteral := by
  cases i with
  | loadConst v => exact IsLiteral.asWritten h
  | _ => trivial

/-- The document of what an instruction is written as. -/
theorem toJson_asWritten (h : i.Loads IsLiteral) : i.asWritten.toJson = i.toJson.asWritten := by
  cases i with
  | loadConst v => simp [toJson, asWritten, operands?, name, IsLiteral.toJson_asWritten h]
  | _ => simp [toJson, asWritten, operands?, number]

/-- An instruction with a finite literal is written as it is. -/
theorem asWritten_eq_self (h : i.toJson.IsFinite) : i.asWritten = i := by
  cases i with
  | loadConst v => exact congrArg loadConst (Value.asWritten_eq_self (h.member List.mem_cons_self))
  | _ => rfl

/-- An instruction with a literal and machine words can be stored. -/
theorem isStorable_of_fits (h : i.fits = true) (hloads : i.Loads IsLiteral) :
    i.isStorable = true := by
  cases i with
  | loadConst v => exact IsLiteral.isPlain hloads
  | _ => exact h

/-- The document of an instruction with a finite literal nests two levels deep. -/
theorem isWithin_toJson (hloads : i.Loads IsLiteral) (hfinite : i.toJson.IsFinite) (levels : Nat) :
    i.toJson.isWithin (levels + 2) = true := by
  cases i with
  | loadConst v =>
    have hv : v.toJson.isWithin (levels + 1) = true :=
      IsLiteral.isWithin hloads (hfinite.member List.mem_cons_self) _
    exact Json.isWithin_object.mpr (by simpa using hv)
  | _ => simp [toJson, operands?, number, Json.isWithin, Json.itemsWithin, Json.membersWithin]

end Instruction

/-- Runs of lines are written as they are. -/
theorem LineRun.asWritten_toJson (r : LineRun) : r.toJson.asWritten = r.toJson := rfl

namespace Code

/-- The numbers in the instructions are machine words, and those of the line runs have 32 bits. -/
def fits (c : Code) : Bool :=
  c.instructions.toList.all Instruction.fits && c.lines.toList.all LineRun.isStorable

/-- Every constant in the code is a literal. -/
def HasLiterals (c : Code) : Prop := ∀ i ∈ c.instructions, i.Loads IsLiteral

/-- The code with none in place of constants that are infinite floats. -/
def asWritten (c : Code) : Code :=
  { c with instructions := c.instructions.map Instruction.asWritten }

variable {c : Code}

/-- What code is written as has the same numbers. -/
@[simp]
theorem fits_asWritten (c : Code) : c.asWritten.fits = c.fits := by
  simp [fits, asWritten, Function.comp_def]

/-- What code with literals is written as has literals. -/
theorem HasLiterals.asWritten (h : c.HasLiterals) : c.asWritten.HasLiterals := by
  intro i hi
  obtain ⟨i', hi', rfl⟩ := Array.mem_map.mp hi
  exact Instruction.loads_asWritten (h i' hi')

/-- The document of what code is written as. -/
theorem HasLiterals.toJson_asWritten (h : c.HasLiterals) :
    c.asWritten.toJson = c.toJson.asWritten := by
  simpa [toJson, Code.asWritten, LineRun.asWritten_toJson] using
    fun i hi => Instruction.toJson_asWritten (h i hi)

/-- Code whose constants are finite is written as it is. -/
theorem asWritten_eq_self (h : c.toJson.IsFinite) : c.asWritten = c := by
  have hlist := h.member (m := ("instructions", _)) List.mem_cons_self
  have hinstructions : c.instructions.toList.map Instruction.asWritten = c.instructions.toList :=
    (List.map_congr_left fun i hi =>
      Instruction.asWritten_eq_self (hlist.item (List.mem_map_of_mem hi))).trans (List.map_id _)
  rw [asWritten, Array.toList_inj.mp (Array.toList_map.trans hinstructions)]

/-- Code with literals and numbers in range can be stored. -/
theorem isStorable_of_fits (h : c.fits = true) (hloads : c.HasLiterals) :
    c.isStorable = true := by
  simp only [fits, isStorable, Bool.and_eq_true, List.all_eq_true] at h ⊢
  exact ⟨fun i hi => Instruction.isStorable_of_fits (h.1 i hi)
    (hloads i (Array.mem_toList_iff.mp hi)), h.2⟩

/-- The document of code with finite literals nests four levels deep. -/
theorem isWithin_toJson (hloads : c.HasLiterals) (hfinite : c.toJson.IsFinite) (levels : Nat) :
    c.toJson.isWithin (levels + 4) = true := by
  refine Json.isWithin_object.mpr fun member hmember => ?_
  have hfinite := hfinite.member hmember
  simp only [List.mem_cons, List.not_mem_nil, or_false] at hmember
  rcases hmember with rfl | rfl
  · refine Json.isWithin_array.mpr fun j hj => ?_
    obtain ⟨i, hi, rfl⟩ := List.mem_map.mp hj
    exact Instruction.isWithin_toJson (hloads i (Array.mem_toList_iff.mp hi)) (hfinite.item hj) _
  · refine Json.isWithin_array.mpr fun j hj => ?_
    obtain ⟨r, -, rfl⟩ := List.mem_map.mp hj
    simp [LineRun.toJson, Instruction.number, Json.isWithin, Json.membersWithin]

end Code

namespace MacroDecl

/-- The numbers of the siblings are machine words, and the numbers in the code are in range. -/
def fits (m : MacroDecl) : Bool :=
  m.siblings.all (fun sibling => sibling.2 < UInt64.size) && m.code.fits

/-- The macro with none in place of constants that are infinite floats. -/
def asWritten (m : MacroDecl) : MacroDecl := { m with code := m.code.asWritten }

variable {m : MacroDecl}

/-- What a macro is written as has the same numbers. -/
@[simp]
theorem fits_asWritten (m : MacroDecl) : m.asWritten.fits = m.fits := by
  simp [fits, asWritten]

/-- The document of what a macro is written as. -/
theorem toJson_asWritten (hloads : m.code.HasLiterals) :
    m.asWritten.toJson = m.toJson.asWritten := by
  simp [toJson, asWritten, hloads.toJson_asWritten, Instruction.number, Function.comp_def]

/-- A macro whose constants are finite is written as it is. -/
theorem asWritten_eq_self (h : m.toJson.IsFinite) : m.asWritten = m := by
  rw [asWritten, Code.asWritten_eq_self (h.member (m := ("instructions", m.code.toJson)) (by simp))]

/-- A macro with literals and numbers in range can be stored. -/
theorem isStorable_of_fits (h : m.fits = true) (hloads : m.code.HasLiterals) :
    m.isStorable = true := by
  simp only [fits, isStorable, Bool.and_eq_true] at h ⊢
  exact ⟨h.1, Code.isStorable_of_fits h.2 hloads⟩

/-- The document of a macro with finite literals nests five levels deep. -/
theorem isWithin_toJson (hloads : m.code.HasLiterals) (hfinite : m.toJson.IsFinite)
    (levels : Nat) : m.toJson.isWithin (levels + 5) = true := by
  refine Json.isWithin_object.mpr fun member hmember => ?_
  have hfinite := hfinite.member hmember
  simp only [List.mem_cons, List.not_mem_nil, or_false] at hmember
  rcases hmember with rfl | rfl | rfl | rfl
  · rfl
  · refine Json.isWithin_array.mpr fun j hj => ?_
    obtain ⟨name, -, rfl⟩ := List.mem_map.mp hj
    rfl
  · refine Json.isWithin_array.mpr fun j hj => ?_
    obtain ⟨sibling, -, rfl⟩ := List.mem_map.mp hj
    simp [Instruction.number, Json.isWithin, Json.itemsWithin]
  · exact Code.isWithin_toJson hloads hfinite levels

end MacroDecl

namespace Program

/-- The numbers in the program are in the range of the fields of a document. -/
structure Fits (p : Program) : Prop where
  main : p.main.fits = true
  macros : ∀ m ∈ p.macros, m.fits = true

/-- Every constant in the program is a literal. -/
structure HasLiterals (p : Program) : Prop where
  main : p.main.HasLiterals
  macros : ∀ m ∈ p.macros, m.code.HasLiterals

/-- The program with none in place of constants that are infinite floats. -/
def asWritten (p : Program) : Program :=
  { p with main := p.main.asWritten, macros := p.macros.map MacroDecl.asWritten }

variable {p : Program}

/-- What a program is written as has the same numbers. -/
theorem Fits.asWritten (h : p.Fits) : p.asWritten.Fits where
  main := by simpa [Program.asWritten] using h.main
  macros m hm := by
    obtain ⟨m', hm', rfl⟩ := Array.mem_map.mp hm
    simpa using h.macros m' hm'

/-- What a program with literals is written as has literals. -/
theorem HasLiterals.asWritten (h : p.HasLiterals) : p.asWritten.HasLiterals where
  main := h.main.asWritten
  macros m hm := by
    obtain ⟨m', hm', rfl⟩ := Array.mem_map.mp hm
    exact (h.macros m' hm').asWritten

/-- The document of what a program is written as. -/
theorem HasLiterals.toJson_asWritten (h : p.HasLiterals) :
    p.asWritten.toJson = p.toJson.asWritten := by
  simpa [toJson, Program.asWritten, texts, h.main.toJson_asWritten, Instruction.number,
    Function.comp_def] using fun m hm => MacroDecl.toJson_asWritten (h.macros m hm)

/-- A program whose constants are finite is written as it is. -/
theorem asWritten_eq_self (h : p.toJson.IsFinite) : p.asWritten = p := by
  have hlist := h.member (m := ("macros", .array (p.macros.toList.map MacroDecl.toJson))) (by simp)
  have hmacros : p.macros.toList.map MacroDecl.asWritten = p.macros.toList :=
    (List.map_congr_left fun m hm =>
      MacroDecl.asWritten_eq_self (hlist.item (List.mem_map_of_mem hm))).trans (List.map_id _)
  rw [asWritten, Code.asWritten_eq_self (h.member (m := ("instructions", p.main.toJson)) (by simp)),
    Array.toList_inj.mp (Array.toList_map.trans hmacros)]

/-- A program with finite literals and numbers in range can be stored. -/
theorem HasLiterals.isStorable (h : p.HasLiterals) (hfits : p.Fits)
    (hfinite : p.toJson.IsFinite) : p.IsStorable where
  main := Code.isStorable_of_fits hfits.main h.main
  macros m hm := MacroDecl.isStorable_of_fits (hfits.macros m hm) (h.macros m hm)
  nesting := by
    have htexts (names : List String) : (texts names).isWithin (maxNesting - 1) = true := by
      refine Json.isWithin_array.mpr fun j hj => ?_
      obtain ⟨name, -, rfl⟩ := List.mem_map.mp hj
      rfl
    refine Json.isWithin_object.mpr fun member hmember => ?_
    have hfinite := hfinite.member hmember
    simp only [List.mem_cons, List.not_mem_nil, or_false] at hmember
    rcases hmember with rfl | rfl | rfl | rfl | rfl | rfl | rfl | rfl
    · rfl
    · rfl
    · rfl
    · exact htexts _
    · exact htexts _
    · exact htexts _
    · exact Code.isWithin_toJson h.main hfinite 122
    · refine Json.isWithin_array.mpr fun j hj => ?_
      obtain ⟨m, hm, rfl⟩ := List.mem_map.mp hj
      exact MacroDecl.isWithin_toJson (h.macros m (Array.mem_toList_iff.mp hm))
        (hfinite.item hj) 120

end Program

namespace Engine

variable {e : Engine} {name source : String} {options : Options} {p : Program}

end Engine

end Templating
