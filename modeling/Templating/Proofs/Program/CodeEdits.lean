import Mathlib.Data.List.Chain
import Templating.Proofs.Program.LineTable

/-!
# Edits of code and its line table

Code grows at its end, and jumps that were emitted before their targets were known are rewritten
where they stand. However both are mixed, the line table says of every instruction where it was
appended from, and it says so in as few runs as there are changes of place: each run begins behind
the one before it and has another place.

The runs of a table are kept in numbers of 32 bits. A position of more bits would be cut off, so
packed code is told apart from code here; both are the same as long as positions have 32 bits.
-/

namespace Templating

namespace LineTable

/-- Neighbouring runs have different places. -/
def Alternates (runs : Array LineRun) : Prop :=
  runs.toList.IsChain fun r q => r.file ≠ q.file ∨ r.line ≠ q.line

/-- A new run begins only at another place than the last one. -/
theorem Alternates.push {runs : Array LineRun} (h : Alternates runs) (index file line : Nat) :
    Alternates (LineTable.push runs index file line) := by
  have happend : (∀ last ∈ runs.back?, last.file ≠ file ∨ last.line ≠ line) →
      Alternates (runs.push ⟨index, file, line⟩) := by
    intro hlast
    rw [Alternates, Array.toList_push]
    refine h.append (.singleton _) fun last hmem run hrun => ?_
    obtain rfl := Option.some.inj hrun
    exact hlast last (by rwa [Array.getLast?_toList] at hmem)
  unfold LineTable.push
  split
  · rename_i last hback
    split
    · exact h
    · rename_i hplace
      refine happend fun r hr => ?_
      obtain rfl := Option.some.inj (hback.symm.trans hr)
      exact (not_and_or.mp hplace).symm
  · rename_i hback
    exact happend fun r hr => absurd (hback.symm.trans hr) (by simp)

namespace Describes

variable {runs : Array LineRun} {places : List (Nat × Nat)}

/-- The first run begins at the first instruction. -/
theorem head?_starts (h : Describes runs places) (hplaces : places ≠ []) :
    (runs.toList.map LineRun.first).head? = some 0 := by
  have hrun := Array.getElem?_eq_getElem (h.nonempty hplaces)
  rw [List.head?_eq_getElem?, List.getElem?_map, Array.getElem?_toList, hrun, Option.map_some,
    h.front hrun]

/-- Runs begin one behind the other. -/
theorem pairwise_starts (h : Describes runs places) :
    (runs.toList.map LineRun.first).Pairwise (· < ·) := by
  rw [List.pairwise_map, List.pairwise_iff_getElem]
  intro i j hi hj hij
  exact h.sorted hij (Array.getElem?_eq_getElem hi) (Array.getElem?_eq_getElem hj)

end Describes

end LineTable

/-! ## Edits -/

namespace Code

/-- An edit of code. -/
inductive Edit where
  /-- Append an instruction that comes from a line of a file. -/
  | append (i : Instruction) (file line : UInt32)
  /-- Rewrite the instruction at an index. -/
  | rewrite (index : Nat) (change : Instruction → Instruction)

namespace Edit

/-- The place of the instruction that an edit appends. -/
def place? : Edit → Option (Nat × Nat)
  | append _ file line => some (file.toNat, line.toNat)
  | rewrite .. => none

/-- The places that instructions were appended from, in order. -/
def places (edits : List Edit) : List (Nat × Nat) := edits.filterMap place?

/-- One more edit appends its place, if it has one. -/
theorem places_concat (edits : List Edit) (e : Edit) :
    places (edits ++ [e]) = places edits ++ e.place?.toList := by
  rw [places, List.filterMap_append, List.filterMap_cons]
  cases e.place? <;> rfl

end Edit

/-- The code after an edit. -/
def edit (c : Code) : Edit → Code
  | .append i file line => c.push i file.toNat line.toNat
  | .rewrite index change => c.rewrite index change

/-- The code that edits make, beginning without instructions. -/
def ofEdits (edits : List Edit) : Code := edits.foldl edit {}

/-- The code has an instruction for each place, and its line table describes the places in
alternating runs. -/
structure Records (c : Code) (places : List (Nat × Nat)) : Prop where
  size : c.size = places.length
  describes : LineTable.Describes c.lines places
  alternates : LineTable.Alternates c.lines

/-- Code without instructions records no places. -/
theorem records_empty : Records {} [] := ⟨rfl, LineTable.describes_empty, .nil⟩

namespace Records

variable {c : Code} {places : List (Nat × Nat)}

/-- Appending an instruction records its place. -/
theorem push (h : c.Records places) (i : Instruction) (file line : Nat) :
    (c.push i file line).Records (places ++ [(file, line)]) where
  size := by
    rw [List.length_append, List.length_singleton, ← h.size]
    exact Array.size_push _
  describes := by
    have hsize : c.instructions.size = places.length := h.size
    rw [Code.push, hsize]
    exact h.describes.push file line
  alternates := h.alternates.push _ _ _

/-- Rewriting an instruction leaves the places as they are. -/
theorem rewrite (h : c.Records places) (index : Nat) (change : Instruction → Instruction) :
    (c.rewrite index change).Records places where
  size := Array.size_modify.trans h.size
  describes := h.describes
  alternates := h.alternates

/-- An edit records the place of the instruction that it appends, and of no other one. -/
theorem edit (h : c.Records places) (e : Edit) :
    (c.edit e).Records (places ++ e.place?.toList) := by
  cases e with
  | append i file line => exact h.push i file.toNat line.toNat
  | rewrite index change =>
    rw [Edit.place?, Option.toList_none, List.append_nil]
    exact h.rewrite index change

end Records

/-- Edits leave the places of all appended instructions recorded. -/
theorem records_ofEdits (edits : List Edit) : (ofEdits edits).Records (Edit.places edits) := by
  induction edits using List.reverseRecOn with
  | nil => exact records_empty
  | append_singleton edits e ih =>
    rw [ofEdits, List.foldl_append, Edit.places_concat]
    exact ih.edit e

end Code

/-! ## Runs in 32 bits -/

/-- A run as it is kept, in numbers of 32 bits. -/
structure PackedRun where
  first : UInt32
  file : UInt32
  line : UInt32

/-- The run that was kept. -/
def PackedRun.unpack (r : PackedRun) : LineRun := ⟨r.first.toNat, r.file.toNat, r.line.toNat⟩

namespace LineTable

/-- Note the place of the next instruction in 32 bits. Of a position of more bits only the lower
ones are kept. -/
def pushPacked (runs : Array PackedRun) (index : Nat) (file line : UInt32) : Array PackedRun :=
  match runs.back? with
  | some last =>
    if last.line = line ∧ last.file = file then runs else runs.push ⟨.ofNat index, file, line⟩
  | none => runs.push ⟨.ofNat index, file, line⟩

/-- At a position of 32 bits nothing is lost. -/
theorem unpack_pushPacked {runs : Array PackedRun} {index : Nat} (hindex : index < UInt32.size)
    (file line : UInt32) :
    (pushPacked runs index file line).map PackedRun.unpack =
      push (runs.map PackedRun.unpack) index file.toNat line.toNat := by
  have hpush : (runs.push ⟨.ofNat index, file, line⟩).map PackedRun.unpack =
      (runs.map PackedRun.unpack).push ⟨index, file.toNat, line.toNat⟩ := by
    rw [Array.map_push, PackedRun.unpack, UInt32.toNat_ofNat_of_lt' hindex]
  rw [pushPacked, push, Array.back?_map]
  cases runs.back? with
  | none => exact hpush
  | some last =>
    simp only [Option.map_some, PackedRun.unpack, UInt32.toNat_inj]
    split
    · rfl
    · exact hpush

end LineTable

/-- Code whose runs are kept in 32 bits. -/
structure PackedCode where
  instructions : Array Instruction := #[]
  lines : Array PackedRun := #[]

namespace PackedCode

/-- The code that was kept. -/
def unpack (c : PackedCode) : Code where
  instructions := c.instructions
  lines := c.lines.map PackedRun.unpack

/-- The code after an edit. -/
def edit (c : PackedCode) : Code.Edit → PackedCode
  | .append i file line =>
    { instructions := c.instructions.push i
      lines := LineTable.pushPacked c.lines c.instructions.size file line }
  | .rewrite index change => { c with instructions := c.instructions.modify index change }

/-- The code that edits make, beginning without instructions. -/
def ofEdits (edits : List Code.Edit) : PackedCode := edits.foldl edit {}

/-- An edit loses nothing while the position of the next instruction has 32 bits. -/
theorem unpack_edit {c : PackedCode} (hsize : c.unpack.size < UInt32.size) (e : Code.Edit) :
    (c.edit e).unpack = c.unpack.edit e := by
  cases e with
  | append i file line =>
    have hlines :
        (LineTable.pushPacked c.lines c.instructions.size file line).map PackedRun.unpack =
          LineTable.push (c.lines.map PackedRun.unpack) c.instructions.size file.toNat
            line.toNat := LineTable.unpack_pushPacked hsize file line
    exact congrArg (Code.mk (c.instructions.push i)) hlines
  | rewrite index change => rfl

/-- Edits lose nothing while the positions of all instructions have 32 bits. -/
theorem unpack_ofEdits {edits : List Code.Edit}
    (hcount : (Code.Edit.places edits).length < UInt32.size) :
    (ofEdits edits).unpack = Code.ofEdits edits := by
  induction edits using List.reverseRecOn with
  | nil => exact congrArg (Code.mk #[]) Array.map_empty
  | append_singleton edits e ih =>
    have hbefore : (Code.Edit.places edits).length < UInt32.size := by
      rw [Code.Edit.places_concat, List.length_append] at hcount
      omega
    have hunpack := ih hbefore
    have hsize : (ofEdits edits).unpack.size < UInt32.size := by
      rw [hunpack, (Code.records_ofEdits edits).size]
      exact hbefore
    calc (ofEdits (edits ++ [e])).unpack
        = ((ofEdits edits).edit e).unpack := by rw [ofEdits, List.foldl_append]; rfl
      _ = (Code.ofEdits edits).edit e := by rw [unpack_edit hsize, hunpack]
      _ = Code.ofEdits (edits ++ [e]) := by rw [Code.ofEdits, Code.ofEdits, List.foldl_append]; rfl

end PackedCode

namespace Code

/-- Line tables lose nothing. Whatever instructions are appended, fewer than 2^32 of them, and
whatever instructions are rewritten on the way or afterwards: keeping runs in 32 bits changes
nothing, and the place of every instruction is the one it was appended from. The first run begins
at the first instruction, runs begin one behind the other, and neighbours have different places. -/
theorem lines_lossless (edits : List Edit) (hcount : (Edit.places edits).length < UInt32.size) :
    let c := ofEdits edits
    let starts := c.lines.toList.map LineRun.first
    (PackedCode.ofEdits edits).unpack = c ∧
      c.size = (Edit.places edits).length ∧
      (∀ i < c.size, c.place? i = (Edit.places edits)[i]?) ∧
      (0 < c.size → starts.head? = some 0) ∧
      starts.Pairwise (· < ·) ∧
      c.lines.toList.IsChain fun r q => r.file ≠ q.file ∨ r.line ≠ q.line := by
  intro c starts
  have hrecords : c.Records (Edit.places edits) := records_ofEdits edits
  have hplace : ∀ i < c.size, c.place? i = (Edit.places edits)[i]? := by
    intro i hi
    have hsome := List.getElem?_eq_getElem (hrecords.size ▸ hi)
    rw [hsome]
    exact LineTable.find?_eq_some hrecords.describes hsome
  have hstart : 0 < c.size → starts.head? = some 0 := by
    intro hpos
    refine hrecords.describes.head?_starts fun hnil => ?_
    rw [hrecords.size, hnil] at hpos
    exact absurd hpos (Nat.lt_irrefl 0)
  exact ⟨PackedCode.unpack_ofEdits hcount, hrecords.size, hplace, hstart,
    hrecords.describes.pairwise_starts, hrecords.alternates⟩

/-- A condition in one file around the text of another file, whose jump is rewritten when its
target is known. -/
def guardedText : List Edit :=
  [.append (.lookup "x") 0 1, .append (.jumpIfFalse 0) 0 1, .append (.emitRaw "a") 1 4,
    .rewrite 1 fun _ => .jumpIfFalse 3, .append (.emitRaw "b") 0 1, .rewrite 4 id]

/-- The table has a run for each change of place, also back to where a run was before. -/
theorem lines_lossless_guardedText :
    let c := ofEdits guardedText
    let starts := c.lines.toList.map LineRun.first
    (Edit.places guardedText).length < UInt32.size ∧
      c.lines = #[⟨0, 0, 1⟩, ⟨2, 1, 4⟩, ⟨3, 0, 1⟩] ∧
      (PackedCode.ofEdits guardedText).unpack = c ∧
      c.size = 4 ∧
      (∀ i < c.size, c.place? i = [(0, 1), (0, 1), (1, 4), (0, 1)][i]?) ∧
      (0 < c.size → starts.head? = some 0) ∧
      starts.Pairwise (· < ·) ∧
      c.lines.toList.IsChain fun r q => r.file ≠ q.file ∨ r.line ≠ q.line := by
  have hcount : (Edit.places guardedText).length < UInt32.size := by decide
  exact ⟨hcount, rfl, lines_lossless guardedText hcount⟩

end Code

end Templating
