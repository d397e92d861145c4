import Templating.Template.Lexer
import Templating.Proofs.Template.Rejections

/-!
# Tokens of tags and output points

Tokens come in regions: literal text stands outside, and an output point or a tag begins with its
opening delimiter and goes on to its closing one. Where the lexer meets no fault the last region is
closed. A fault of the lexer is noted with the line that it names.
-/

namespace Templating

/-- The token stands outside of output points and tags, or begins one. -/
def Token.isOuter : Token → Bool
  | .data _ | .outputStart | .tagStart => true
  | _ => false

/-- An output point or a tag goes on behind the token. -/
def Token.isInside : Token → Bool
  | .data _ | .outputEnd | .tagEnd => false
  | _ => true

/-- The error has no place yet, and if it rejects something its line is noted. -/
structure Error.IsNoted (e : Error) : Prop where
  location : e.location? = none
  custom : e.fault.isCustom = false
  line : ∀ {n}, e.fault.rejectedLine? = some n → e.line? = some n

namespace Lexer

/-- Tokens behind a place that is inside of a region or not: they go on with the region up to its
end, and if no error ends them the last region is closed. -/
def InRegions (error? : Option Error) : Bool → List (Token × Span) → Prop
  | inside, [] => inside = true → error?.isSome = true
  | inside, t :: rest => t.1.isOuter = !inside ∧ InRegions error? t.1.isInside rest

/-- Behind any of the tokens there are others that stand in regions. -/
theorem InRegions.of_append {error? : Option Error} {before rest : List (Token × Span)}
    {t : Token × Span} {inside : Bool} (h : InRegions error? inside (before ++ t :: rest)) :
    InRegions error? t.1.isInside rest := by
  induction before generalizing inside with
  | nil => exact h.2
  | cons _ before ih => exact ih h.2

/-- The mode is one between delimiters. -/
def Mode.isInside : Mode → Bool
  | .text => false
  | _ => true

/-- What a step does in and with a region. -/
def Step.FitsRegion (inside : Bool) : Step → Prop
  | .skip next => next.mode.isInside = inside
  | .token t _ next => t.isOuter = !inside ∧ next.mode.isInside = t.isInside
  | .fault e => e.IsNoted

section Steps

variable {s : State} {controls : Controls}

/-- A fault on a line. -/
theorem fitsRegion_failAt {inside : Bool} {line : Nat} {fault : Fault}
    (hcustom : fault.isCustom = false)
    (hline : ∀ {n}, fault.rejectedLine? = some n → line = n) :
    (State.failAt line fault).FitsRegion inside :=
  ⟨rfl, hcustom, fun h => congrArg some (hline h)⟩

/-- Punctuation stands between delimiters. -/
theorem isInside_of_punctuation? {cs : List Char} {t : Token} {n : Nat}
    (h : punctuation? cs = some (t, n)) : t.isOuter = false ∧ t.isInside = true := by
  unfold punctuation? at h
  split at h <;> first | cases h; exact ⟨rfl, rfl⟩ | cases h

/-- Numbers stand between delimiters. -/
theorem isInside_of_numberToken? {cs : List Char} {part : NumberPart} {t : Token}
    (h : numberToken? cs part = some t) : t.isOuter = false ∧ t.isInside = true := by
  have hfloat {α : Type} {d? : Option α} {f : α → Token}
      (hf : ∀ d, (f d).isOuter = false ∧ (f d).isInside = true) (h : d?.map f = some t) :
      t.isOuter = false ∧ t.isInside = true := by
    obtain ⟨d, -, rfl⟩ := Option.map_eq_some_iff.mp h
    exact hf d
  unfold numberToken? at h
  dsimp only at h
  split at h
  · split at h
    · cases h
      exact ⟨rfl, rfl⟩
    · exact hfloat (fun _ => ⟨rfl, rfl⟩) h
  · exact hfloat (fun _ => ⟨rfl, rfl⟩) h

/-- A token between delimiters is taken. -/
theorem fitsRegion_take {t : Token} {count : Nat} (hmode : s.mode.isInside = true)
    (h : t.isOuter = false ∧ t.isInside = true) : (s.take t count).FitsRegion true :=
  ⟨h.1, hmode.trans h.2.symm⟩

/-- A step between delimiters. -/
theorem inside_fitsRegion {m : Marker} {ending : Token} (hmode : s.mode.isInside = true)
    (hending : ending.isOuter = false ∧ ending.isInside = false) :
    (s.inside controls m ending).FitsRegion true := by
  unfold State.inside
  dsimp only
  split
  · exact hmode
  · split
    · exact ⟨hending.1, hending.2.symm⟩
    · split
      · exact ⟨hending.1, hending.2.symm⟩
      · have hstring (quote : Char) : (s.string quote).FitsRegion true := by
          unfold State.string
          split
          · exact fitsRegion_failAt rfl (by simp [Fault.rejectedLine?])
          · split
            · exact fitsRegion_take hmode ⟨rfl, rfl⟩
            · exact ⟨rfl, rfl, by simp [Error.ofFault, Fault.rejectedLine?]⟩
        have hnumber : s.number.FitsRegion true := by
          unfold State.number
          dsimp only
          split
          · next h => exact fitsRegion_take hmode (isInside_of_numberToken? h)
          · exact fitsRegion_failAt rfl (by simp [Fault.rejectedLine?])
        have hword : s.word.FitsRegion true := by
          unfold State.word
          dsimp only
          split
          · exact fitsRegion_failAt rfl (by simp [Fault.rejectedLine?])
          · exact fitsRegion_take hmode ⟨rfl, rfl⟩
        split
        · next h => exact fitsRegion_take hmode (isInside_of_punctuation? h)
        · split
          · exact hstring _
          · exact hstring _
          · split
            · exact hnumber
            · exact hword
          · exact hword

/-- A step into a region. -/
theorem enter_fitsRegion {m : Marker} {inner : List Char} (hmode : s.mode.isInside = false) :
    (s.enter controls m inner).FitsRegion false := by
  unfold State.enter
  dsimp only
  split
  · split
    · exact fitsRegion_failAt rfl (by simp [Fault.rejectedLine?])
    · exact hmode
  · exact ⟨rfl, rfl⟩
  · split
    · unfold State.raw
      split
      · exact fitsRegion_failAt rfl (by simp [Fault.rejectedLine?])
      · exact ⟨rfl, hmode⟩
    · exact ⟨rfl, rfl⟩

/-- A step over literal text. -/
theorem literal_fitsRegion (hmode : s.mode.isInside = false) :
    (s.literal controls).FitsRegion false := by
  unfold State.literal
  extract_lets blanks behind
  split
  extract_lets lead next
  split
  · exact hmode
  · exact ⟨rfl, hmode⟩

/-- Every step. -/
theorem step_fitsRegion : (s.step controls).FitsRegion s.mode.isInside := by
  unfold State.step
  split
  · next h => exact h ▸ inside_fitsRegion (by rw [h]; rfl) ⟨rfl, rfl⟩
  · next h => exact h ▸ inside_fitsRegion (by rw [h]; rfl) ⟨rfl, rfl⟩
  · next h =>
    rw [h]
    split
    · exact enter_fitsRegion (by rw [h]; rfl)
    · exact literal_fitsRegion (by rw [h]; rfl)

/-- Text that ends between delimiters. -/
theorem unclosed_isSome (h : s.mode.isInside = true) : (s.unclosed controls).isSome = true := by
  cases hmode : s.mode with
  | text => simp [hmode, Mode.isInside] at h
  | output | tag => simp [State.unclosed, hmode]

/-- Text that ends between delimiters is no rejection. -/
theorem unclosed_isNoted : ∀ e ∈ s.unclosed controls, e.IsNoted := by
  intro e he
  unfold State.unclosed at he
  split at he
  · cases he
  · cases he
    exact ⟨rfl, rfl, by simp [Error.onLine, Fault.rejectedLine?]⟩
  · cases he
    exact ⟨rfl, rfl, by simp [Error.onLine, Fault.rejectedLine?]⟩

/-- The tokens of a run stand in regions, and an error that ends them is noted with its line. -/
theorem run_inRegions (fuel : Nat) (s : State) :
    InRegions (run controls fuel s).error? s.mode.isInside (run controls fuel s).tokens ∧
      ∀ e ∈ (run controls fuel s).error?, e.IsNoted := by
  induction fuel generalizing s with
  | zero => exact ⟨unclosed_isSome, unclosed_isNoted⟩
  | succ fuel ih =>
    have hstep : (s.step controls).FitsRegion s.mode.isInside := step_fitsRegion
    rw [run]
    split
    · exact ⟨unclosed_isSome, unclosed_isNoted⟩
    · cases hfound : s.step controls with
      | skip next =>
        rw [hfound] at hstep
        exact (show next.mode.isInside = s.mode.isInside from hstep) ▸ ih next
      | token t span next =>
        rw [hfound] at hstep
        obtain ⟨hregions, hnoted⟩ := ih next
        exact ⟨⟨hstep.1, hstep.2 ▸ hregions⟩, hnoted⟩
      | fault e =>
        rw [hfound] at hstep
        exact ⟨fun _ => rfl, fun e' he' => Option.some.inj he' ▸ hstep⟩

end Steps

end Lexer

/-- The tokens of a source stand in regions, and an error that ends them is noted with its line. -/
theorem lex_inRegions (controls : Controls) (source : String) :
    Lexer.InRegions (lex controls source).error? false (lex controls source).tokens ∧
      ∀ e ∈ (lex controls source).error?, e.IsNoted :=
  Lexer.run_inRegions _ _

end Templating
