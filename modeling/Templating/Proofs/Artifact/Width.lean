import Templating.Artifact.Text
import Templating.Proofs.Json.Width
import Templating.Proofs.Text.Utf8

/-!
# Code is shorter than its text

An instruction takes three characters of an artifact at least and one more behind them, so code has
at most a quarter as many instructions as its text has bytes. Counts that follow from the size of
code are therefore far from the end of the machine words, whatever an artifact says.
-/

namespace Templating

/-- The shortest instructions are names in quotes. -/
theorem Instruction.three_le_width {levels : Nat} {j : Json} {i : Instruction}
    (h : ofJson? levels j = some i) : 3 ≤ j.width := by
  cases j with
  | text name =>
    have hname : name ≠ "" := by
      rintro rfl
      simp [ofJson?, plain?] at h
    have hlength : name.length ≠ 0 := mt String.length_eq_zero_iff.mp hname
    rw [Json.width]
    omega
  | object members =>
    cases members with
    | nil => simp [ofJson?] at h
    | cons m rest =>
      rw [Json.width, Json.membersWidth]
      omega
  | _ => simp [ofJson?] at h

/-- Code is narrower than its document. -/
theorem Code.size_lt_width {levels : Nat} {j : Json} {c : Code} (h : ofJson? levels j = some c) :
    c.size * 4 < j.width := by
  obtain ⟨fields, hfields, h⟩ := Option.bind_eq_some_iff.mp h
  split at h
  · next instructions lines =>
    obtain ⟨is, his, h⟩ := Option.bind_eq_some_iff.mp h
    obtain ⟨runs, -, h⟩ := Option.bind_eq_some_iff.mp h
    obtain rfl := Option.some.inj h
    obtain ⟨d, rfl, hd⟩ := Json.exists_of_required? his
    have hlist := Json.length_asList? (fun _ _ => Instruction.three_le_width) hd
    have hfield := Json.width_lt_of_fields? hfields List.mem_cons_self
    rw [Code.size, List.size_toArray]
    omega
  · simp at h

/-- The code of a macro is narrower than the document of the macro. -/
theorem MacroDecl.size_lt_width {levels : Nat} {j : Json} {m : MacroDecl}
    (h : ofJson? levels j = some m) : m.code.size * 4 < j.width := by
  obtain ⟨fields, hfields, h⟩ := Option.bind_eq_some_iff.mp h
  split at h
  · next name params siblings code =>
    obtain ⟨name, -, h⟩ := Option.bind_eq_some_iff.mp h
    obtain ⟨params, -, h⟩ := Option.bind_eq_some_iff.mp h
    obtain ⟨siblings, -, h⟩ := Option.bind_eq_some_iff.mp h
    obtain ⟨code, hcode, h⟩ := Option.bind_eq_some_iff.mp h
    obtain rfl := Option.some.inj h
    obtain ⟨d, rfl, hd⟩ := Json.exists_of_required? hcode
    have hsize := Code.size_lt_width hd
    have hfield := Json.width_lt_of_fields? hfields (d := d) (by simp)
    exact Nat.lt_trans hsize hfield
  · simp at h

namespace Program

/-- The code of a program: its main code and that of its macros. -/
def HasCode (p : Program) (c : Code) : Prop := c = p.main ∨ ∃ decl ∈ p.macros, c = decl.code

/-- All code of a program is narrower than the document of the program. -/
theorem size_lt_width {j : Json} {format : Nat} {p : Program} (h : ofJson? j = some (format, p))
    {c : Code} (hc : p.HasCode c) : c.size * 4 < j.width := by
  obtain ⟨fields, hfields, h⟩ := Option.bind_eq_some_iff.mp h
  split at h
  · next =>
    obtain ⟨_, -, h⟩ := Option.bind_eq_some_iff.mp h
    obtain ⟨_, -, h⟩ := Option.bind_eq_some_iff.mp h
    obtain ⟨_, -, h⟩ := Option.bind_eq_some_iff.mp h
    obtain ⟨_, -, h⟩ := Option.bind_eq_some_iff.mp h
    obtain ⟨_, -, h⟩ := Option.bind_eq_some_iff.mp h
    obtain ⟨_, -, h⟩ := Option.bind_eq_some_iff.mp h
    obtain ⟨main, hmain, h⟩ := Option.bind_eq_some_iff.mp h
    obtain ⟨macros, hmacros, h⟩ := Option.bind_eq_some_iff.mp h
    obtain ⟨rfl, rfl⟩ := Prod.mk.inj (Option.some.inj h)
    rcases hc with rfl | ⟨decl, hdecl, rfl⟩
    · obtain ⟨d, rfl, hd⟩ := Json.exists_of_required? hmain
      have hsize := Code.size_lt_width hd
      have hfield := Json.width_lt_of_fields? hfields (d := d) (by simp)
      exact Nat.lt_trans hsize hfield
    · rcases Json.exists_of_optional? hmacros with rfl | ⟨d, rfl, hd⟩
      · simp at hdecl
      · obtain ⟨item, hitem, hwidth⟩ := Json.exists_of_mem_asList? hd (by simpa using hdecl)
        have hsize := MacroDecl.size_lt_width hitem
        have hfield := Json.width_lt_of_fields? hfields (d := d) (by simp)
        omega
  · simp at h

/-- White space is only taken away. -/
theorem length_trim_le (cs : List Char) : (Text.trim cs).length ≤ cs.length := by
  rw [Text.trim, Text.trimEnd, List.length_reverse]
  calc ((Text.trimStart cs).reverse.dropWhile Text.isBlank).length
      ≤ (Text.trimStart cs).reverse.length := List.length_dropWhile_le _ _
    _ = (Text.trimStart cs).length := List.length_reverse
    _ ≤ cs.length := List.length_dropWhile_le _ _

/-- Between its braces a text is no longer than it is. -/
theorem length_braced_le (cs : List Char) : (braced cs).length ≤ cs.length := by
  rw [braced]
  split
  · exact Nat.le_refl _
  · rw [upToLast?]
    split
    · exact Nat.le_refl _
    · rw [Option.getD_some, List.length_reverse]
      exact Nat.le_trans (List.length_dropWhile_le _ _)
        (Nat.le_trans (Nat.le_of_eq List.length_reverse) (List.length_dropWhile_le _ _))

/-- Code read from a text has at most a quarter as many instructions as the text has bytes. -/
theorem size_lt_of_ofText {text : String} {p : Program} (h : ofText text = .ok p) {c : Code}
    (hc : p.HasCode c) : c.size * 4 < text.utf8ByteSize := by
  rw [ofText] at h
  split at h
  · simp [fail] at h
  · next format p' hread =>
    split at h
    · obtain rfl := Except.ok.inj h
      obtain ⟨j, hj, hp⟩ := Option.bind_eq_some_iff.mp hread
      calc c.size * 4 < j.width := size_lt_width hp hc
        _ ≤ (braced (Text.trim text.toList)).length := Json.width_of_read? hj
        _ ≤ (Text.trim text.toList).length := length_braced_le _
        _ ≤ text.toList.length := length_trim_le _
        _ ≤ text.utf8ByteSize := Text.length_toList_le text
    · simp [fail] at h

end Program

end Templating
