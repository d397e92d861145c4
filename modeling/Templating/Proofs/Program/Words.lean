import Templating.Proofs.Artifact.Text
import Templating.Proofs.Artifact.Width
import Templating.Proofs.Machine.ExpressionCode
import Templating.Proofs.Machine.Words
import Templating.Proofs.Program.Soundness

/-!
# Artifacts run in machine words

An artifact may hold any instructions with any operands, so the runs of a program that was read from
a text keep none of the order that runs of compiled code have. What they do keep is little: code is
not longer than its text, and loops are whole. That is enough for every step of every run to stay
within machine words and tables, in the main code and in all macros, with one exception: the number
of keys and values of a map is twice an operand that nothing bounds.
-/

namespace Templating

/-- The frames that a macro is entered with have no loops. -/
theorem MacroDecl.areWhole_frames (decl : MacroDecl) (args : List Value) (caller : Frames) :
    (decl.frames args caller).AreWhole := by
  have hroot : Frames.AreWhole [caller.root.snapshot] := .cons (by simp [Frame.snapshot]) .nil
  refine .cons (by simp) ?_
  split
  · exact hroot
  · exact .cons (by simp) hroot

namespace LinkedProgram

variable {linked : LinkedProgram} {budget level base : Nat} {context : Value} {code : Code}
  {t : Machine.Traced}

/-- A run carries out code of the program only. -/
theorem Visits.hasCode (h : linked.Visits budget context level code base t) :
    linked.program.HasCode code := by
  induction h with
  | start => exact .inl rfl
  | step _ _ ih => exact ih
  | call _ _ _ hdecl => exact .inr ⟨_, Array.mem_of_getElem? hdecl, rfl⟩

/-- A run keeps loops whole. -/
theorem Visits.areWhole (h : linked.Visits budget context level code base t) :
    t.machine.frames.AreWhole := by
  induction h with
  | start => exact .cons (by simp) .nil
  | step _ hstep ih =>
    obtain ⟨i, m, -, hadvance, rfl⟩ := hstep
    rw [Machine.advance] at hadvance
    split at hadvance
    · next hexecute =>
      obtain rfl := Except.ok.inj hadvance
      exact Machine.areWhole_execute ih hexecute
    · simp at hadvance
  | call => exact MacroDecl.areWhole_frames _ _ _

end LinkedProgram

namespace Program

/-- Whatever instructions and operands an artifact has that is read from a text, and whatever
context it runs over: a step of its main code or of a macro that it calls goes on or returns an
error, as the machine does, and no word overflows in it and no index is out of bounds. Only a step
that builds a map of so many pairs that no word counts their keys and values has a fault. The text
fits into memory, and so do the sequences and loops of the machine. -/
theorem ofText_steps_in_words {text : String} {p : Program} {registry : Registry}
    {linked : LinkedProgram} (htext : text.utf8ByteSize < Word.half) (hread : ofText text = .ok p)
    (hlink : p.link registry = .ok linked) {budget level base : Nat} {context : Value} {code : Code}
    {t : Machine.Traced} (hvisits : linked.Visits budget context level code base t)
    (hmemory : t.machine.InMemory) {i : Instruction} (hfetch : t.machine.fetch? code = some i) :
    let invoke := linked.callValue (linked.enter budget level)
    t.machine.advanceChecked linked invoke (maxCallDepth - level) code i =
      if i.buildsTooMany then .error .overflow
      else .ok (t.machine.advance linked invoke code i) := by
  intro invoke
  have hlinked : linked.program = p := (link_eq_ok hlink).1
  have hsize : ∀ c, p.HasCode c → c.size * 8 < UInt64.size := fun c hc => by
    have := size_lt_of_ofText hread hc
    rw [Word.size_eq]
    omega
  cases hpairs : i.buildsTooMany with
  | true => exact Machine.advanceChecked_of_buildsTooMany hpairs
  | false =>
    exact Machine.advanceChecked_eq hmemory hvisits.areWhole
      (fun decl hdecl => hsize _ (.inr ⟨decl, hlinked ▸ hdecl, rfl⟩))
      (Nat.lt_of_le_of_lt (Nat.le_mul_of_pos_right _ (by decide))
        (hsize _ (hlinked ▸ hvisits.hasCode))) hfetch hpairs

/-- The compact text of a program without floats is read back. -/
theorem ofText_compact {p : Program} (hp : p.IsStorable) (hfloats : p.toJson.floats = []) :
    ofText (p.toText { minify := true }) = .ok p := by
  obtain ⟨body, hbody, htext⟩ := toText_eq p { minify := true }
  rw [htext]
  exact ofText_of_spells hp (by simp [hfloats]) "" "" hbody (by decide) (by decide)

/-- A program that applies no filter is linked with none. -/
theorem link_eq_ok_of_empty {p : Program} (h : p.filters = #[]) (registry : Registry) :
    p.link registry = .ok ⟨p, #[]⟩ := by
  simp only [link, h, Array.mapM_empty]
  rfl

/-- A loop over one item that is left to the last position that there is a word for. -/
def farJump : Program where
  name := "far"
  autoescape := false
  main := { instructions := #[.loadConst (.seq [.int 7]), .pushLoop, .iterate (UInt64.size - 1)] }

/-- The iteration of the loop stays within words. -/
theorem ofText_steps_in_words_farJump :
    let text := farJump.toText { minify := true }
    let invoke := LinkedProgram.callValue ⟨farJump, #[]⟩ (LinkedProgram.enter ⟨farJump, #[]⟩ 9 500)
    let loop : LoopState := { remaining := [(.int 0, .int 7)], length := 1 }
    let m : Machine :=
      { pc := 2, frames := [{ loop? := some loop }, { context := .map [] }], autoescape := false }
    text.utf8ByteSize < Word.half ∧ ofText text = .ok farJump ∧
      farJump.link .initial = .ok ⟨farJump, #[]⟩ ∧
      LinkedProgram.Visits ⟨farJump, #[]⟩ 9 (.map []) 500 farJump.main 1 ⟨m, [1]⟩ ∧ m.InMemory ∧
      m.fetch? farJump.main = some (.iterate (UInt64.size - 1)) ∧
      m.advanceChecked ⟨farJump, #[]⟩ invoke 0 farJump.main (.iterate (UInt64.size - 1)) =
        .ok (m.advance ⟨farJump, #[]⟩ invoke farJump.main (.iterate (UInt64.size - 1))) := by
  intro text invoke loop m
  have htext : text.utf8ByteSize < Word.half := by decide +kernel
  have hstored : farJump.IsStorable := ⟨by decide +kernel, by decide +kernel, by decide +kernel⟩
  have hread : ofText text = .ok farJump := ofText_compact hstored rfl
  have hlink : farJump.link .initial = .ok ⟨farJump, #[]⟩ := link_eq_ok_of_empty rfl _
  have hvisits : LinkedProgram.Visits ⟨farJump, #[]⟩ 9 (.map []) 500 farJump.main 1 ⟨m, [1]⟩ :=
    (LinkedProgram.Visits.start.step ⟨_, _, rfl, rfl, rfl⟩).step ⟨_, _, rfl, rfl, rfl⟩
  have hmemory : m.InMemory := by
    refine ⟨by simp [m], fun f hf l hl => ?_⟩
    rcases List.mem_cons.mp hf with rfl | hf
    · obtain rfl := Option.some.inj hl
      decide
    · obtain rfl := List.mem_singleton.mp hf
      simp at hl
  exact ⟨htext, hread, hlink, hvisits, hmemory, rfl,
    ofText_steps_in_words htext hread hlink hvisits hmemory rfl⟩

/-- A map of so many pairs that the number of its keys and values is one more than a word holds. -/
def hugeMap : Program where
  name := "n"
  autoescape := false
  main :=
    { instructions := #[.loadConst (.ofString "k"), .loadConst (.int 1), .buildMap Word.half,
        .getAttr "k", .emit] }

/-- Not every step of every artifact stays within words: the one that builds this map does not. -/
theorem not_forall_steps_in_words :
    ¬ ∀ (text : String) (p : Program) (registry : Registry) (linked : LinkedProgram)
      (budget level base : Nat) (context : Value) (code : Code) (t : Machine.Traced)
      (i : Instruction), text.utf8ByteSize < Word.half → ofText text = .ok p →
        p.link registry = .ok linked → linked.Visits budget context level code base t →
          t.machine.InMemory → t.machine.fetch? code = some i →
            ∃ r, t.machine.advanceChecked linked (linked.callValue (linked.enter budget level))
              (maxCallDepth - level) code i = .ok r := by
  intro h
  have hstored : hugeMap.IsStorable := ⟨by decide +kernel, by decide +kernel, by decide +kernel⟩
  have hvisits : LinkedProgram.Visits ⟨hugeMap, #[]⟩ 9 (.map []) maxCallDepth hugeMap.main 1
      ⟨{ pc := 2, stack := [.int 1, .ofString "k"], frames := [{ context := .map [] }]
         autoescape := false }, []⟩ :=
    (LinkedProgram.Visits.start.step ⟨_, _, rfl, rfl, rfl⟩).step ⟨_, _, rfl, rfl, rfl⟩
  obtain ⟨r, hr⟩ := h (hugeMap.toText { minify := true }) hugeMap .initial ⟨hugeMap, #[]⟩ 9
    maxCallDepth 1 (.map []) hugeMap.main _ (.buildMap Word.half) (by decide +kernel)
    (ofText_compact hstored rfl) (link_eq_ok_of_empty rfl _) hvisits
    ⟨by simp [Value.ofString], by simp⟩ rfl
  rw [Machine.advanceChecked_of_buildsTooMany (by decide)] at hr
  exact absurd hr (by simp)

end Program

end Templating
