import Templating.Filter.Builtin
import Templating.Proofs.Template.Pieces
import Templating.Proofs.Text.Literal

/-!
# Quoting a text for a string literal

Two filters write a text so that it can stand between the quotes of a string literal: one puts
backslashes before quotes and backslashes, the other writes special characters by their numbers.
What either of them writes is read back as the text, by a string literal in quotes of either kind
that ends at the closing quote whatever stands behind it.
-/

namespace Templating

namespace Text

section Script

/-- A digit below 16 is written as the table of digits has it. -/
theorem upperHex_mem {n : Nat} (h : n < 16) : (upperHex n, n) ∈ hexDigits := by
  have hall : ∀ n < 16, (upperHex n, n) ∈ hexDigits := by decide +kernel
  exact hall n h

/-- Hexadecimal digits stand for themselves in a script string. -/
theorem isScriptSpecial_fourHex {n : Nat} {d : Char} (h : d ∈ fourHex n) :
    isScriptSpecial d = false := by
  have hall : ∀ k < 16, isScriptSpecial (upperHex k) = false := by decide +kernel
  have hdigit (k : Nat) : isScriptSpecial (upperHex (k % 16)) = false :=
    hall _ (Nat.mod_lt k (by decide))
  simp only [fourHex, List.mem_cons, List.not_mem_nil, or_false] at h
  rcases h with rfl | rfl | rfl | rfl <;> exact hdigit _

/-- Four digits spell the number they are written for. -/
theorem spells_fourHex {n : Nat} (h : n < 65536) : Spells 4 (fourHex n) n := by
  have hdigit (k : Nat) : k % 16 < 16 := Nat.mod_lt k (by decide)
  refine ⟨[n / 4096 % 16, n / 256 % 16, n / 16 % 16, n % 16].map fun d => (upperHex d, d), ?_, rfl,
    rfl, ?_⟩
  · intro d hd
    simp only [List.map_cons, List.map_nil, List.mem_cons, List.not_mem_nil, or_false] at hd
    rcases hd with rfl | rfl | rfl | rfl <;> exact upperHex_mem (hdigit _)
  · simp only [List.map_cons, List.map_nil, List.foldl_cons, List.foldl_nil]
    omega

/-- Special characters have numbers of four digits. -/
theorem toNat_lt_of_isScriptSpecial {c : Char} (h : isScriptSpecial c = true) :
    c.toNat < 65536 := by
  simp only [isScriptSpecial, isControl, Bool.or_eq_true, beq_iff_eq, Bool.and_eq_true,
    decide_eq_true_eq] at h
  rcases h with (((((((((((rfl | rfl) | rfl) | rfl) | rfl) | rfl) | rfl) | rfl) | rfl) | rfl) |
    rfl) | h) <;> first | decide | omega

/-- A character stands in a script string as four digits, or as itself. -/
theorem escapeScript_cons (c : Char) (cs : List Char) :
    (isScriptSpecial c = true ∧
      escapeScript (c :: cs) = '\\' :: 'u' :: (fourHex c.toNat ++ escapeScript cs)) ∨
    (isScriptSpecial c = false ∧ escapeScript (c :: cs) = c :: escapeScript cs) := by
  cases h : isScriptSpecial c with
  | true => exact .inl ⟨rfl, by simp [escapeScript, h]⟩
  | false => exact .inr ⟨rfl, by simp [escapeScript, h]⟩

/-- No character is a surrogate. -/
theorem not_isHigh_toNat (c : Char) : ¬ IsHigh c.toNat ∧ ¬ IsLow c.toNat := by
  have hvalid : c.toNat < 0xD800 ∨ 0xDFFF < c.toNat ∧ c.toNat < 0x110000 := c.valid
  simp only [IsHigh, IsLow]
  omega

/-- What is written for a script string stands for the text. -/
theorem denotes_escapeScript (cs : List Char) : Denotes (Spells 4) (escapeScript cs) cs := by
  induction cs with
  | nil => exact .nil
  | cons c cs ih =>
    rcases escapeScript_cons c cs with ⟨hspecial, hc⟩ | ⟨hplain, hc⟩
    · obtain ⟨hhigh, hlow⟩ := not_isHigh_toNat c
      have hspells := spells_fourHex (toNat_lt_of_isScriptSpecial hspecial)
      have hunit := Denotes.unit hspells hhigh hlow ih
      rw [Char.ofNat_toNat] at hunit
      rwa [hc]
    · rw [hc]
      refine .plain ?_ ih
      rintro rfl
      exact absurd hplain (by decide)

/-- What is written for a script string are backslashes and characters that stand for themselves. -/
theorem mem_escapeScript {c : Char} {cs : List Char} (h : c ∈ escapeScript cs) :
    c = '\\' ∨ isScriptSpecial c = false := by
  induction cs with
  | nil => cases h
  | cons d cs ih =>
    rcases escapeScript_cons d cs with ⟨-, hd⟩ | ⟨hplain, hd⟩
    · rw [hd, List.mem_cons, List.mem_cons, List.mem_append] at h
      rcases h with rfl | rfl | hdigit | hrest
      · exact .inl rfl
      · exact .inr (by decide)
      · exact .inr (isScriptSpecial_fourHex hdigit)
      · exact ih hrest
    · rw [hd, List.mem_cons] at h
      rcases h with rfl | hrest
      · exact .inr hplain
      · exact ih hrest

/-- A character that stands for itself in a script string is no control character and none of those
that mean something in markup or in string literals. -/
theorem not_mem_of_isScriptSpecial {c : Char} (h : isScriptSpecial c = false) :
    c ∉ "\\'\"<>&=;".toList ∧ isControl c = false := by
  simp only [isScriptSpecial, Bool.or_eq_false_iff, beq_eq_false_iff_ne] at h
  exact ⟨by simp [h], h.2⟩

/-- What is written for a script string has neither control characters nor those that mean something
in markup, nor quotes. -/
theorem not_mem_escapeScript {c : Char} {cs : List Char} (h : c ∈ escapeScript cs) :
    c ∉ "'\"<>&=;".toList ∧ isControl c = false := by
  rcases mem_escapeScript h with rfl | hplain
  · decide +kernel
  · obtain ⟨hmem, hcontrol⟩ := not_mem_of_isScriptSpecial hplain
    exact ⟨fun hin => hmem (List.mem_cons_of_mem _ hin), hcontrol⟩

end Script

end Text

namespace Lexer

section Literals

variable {quote : Char}

/-- Characters that are neither quotes nor backslashes go to the body of a string literal. -/
theorem stringBody?_append {cs : List Char} (h : ∀ c ∈ cs, c ≠ quote ∧ c ≠ '\\')
    (rest : List Char) :
    stringBody? quote (cs ++ rest) = (stringBody? quote rest).map (cs ++ ·) := by
  induction cs with
  | nil => simp
  | cons c cs ih =>
    obtain ⟨⟨hquote, hslash⟩, hcs⟩ := List.forall_mem_cons.mp h
    rw [List.cons_append, stringBody?, if_neg hquote, if_neg hslash, ih hcs, Option.map_map]
    · rfl
    · exact fun _ _ heq => absurd heq hslash

/-- The body of a string literal ends behind what is written for a script string. -/
theorem stringBody?_escapeScript (hquote : quote = '\'' ∨ quote = '"') (cs rest : List Char) :
    stringBody? quote (Text.escapeScript cs ++ quote :: rest) = some (Text.escapeScript cs) := by
  have hplain {c : Char} (hc : Text.isScriptSpecial c = false) : c ≠ quote ∧ c ≠ '\\' := by
    obtain ⟨hmem, -⟩ := Text.not_mem_of_isScriptSpecial hc
    refine ⟨?_, ?_⟩
    · rintro rfl
      rcases hquote with rfl | rfl <;> exact hmem (by decide)
    · rintro rfl
      exact hmem (by decide)
  induction cs with
  | nil =>
    rw [Text.escapeScript, List.flatMap_nil, List.nil_append, stringBody?, if_pos rfl]
    rintro _ _ rfl
    rcases hquote with h | h <;> cases h
  | cons c cs ih =>
    rcases Text.escapeScript_cons c cs with ⟨-, hc⟩ | ⟨hspecial, hc⟩
    · have hdigits : ∀ d ∈ Text.fourHex c.toNat, d ≠ quote ∧ d ≠ '\\' := fun d hd =>
        hplain (Text.isScriptSpecial_fourHex hd)
      rw [hc, List.cons_append, List.cons_append, stringBody?, List.append_assoc,
        stringBody?_append hdigits, ih]
      rfl
    · have hne : ∀ d ∈ [c], d ≠ quote ∧ d ≠ '\\' := by
        intro d hd
        obtain rfl := List.mem_singleton.mp hd
        exact hplain hspecial
      rw [hc, ← List.singleton_append, List.append_assoc, stringBody?_append hne, ih]
      rfl

/-- Between delimiters, a string literal whose body is closed and stands for a text is read as the
text, and the cursor goes behind the closing quote. -/
theorem step_string {controls : Controls} {m : Marker} (hm : m ≠ .comment)
    (hquote : quote = '\'' ∨ quote = '"') {s : State} (hmode : s.mode = modeOf m)
    {body value after : List Char} (hrest : s.rest = quote :: (body ++ quote :: after))
    (hend : Text.startsWith (controls.closing m) s.rest = false)
    (hbody : stringBody? quote (body ++ quote :: after) = some body)
    (hvalue : Text.unescape body = some value) :
    s.step controls = s.take (.text (String.ofList value)) (body.length + 2) := by
  have hblank : Text.isAsciiBlank quote = false := by rcases hquote with rfl | rfl <;> decide
  have hminus : '-' ≠ quote := by rcases hquote with rfl | rfl <;> decide
  have hsymbol : punctuation? s.rest = none := by
    rw [hrest]
    rcases hquote with rfl | rfl <;> rfl
  have hstring : s.string quote = s.take (.text (String.ofList value)) (body.length + 2) := by
    simp only [State.string, hrest, List.drop_succ_cons, List.drop_zero, hbody, hvalue]
  have hminusEnd : Text.startsWith ('-' :: controls.closing m) s.rest = false := by
    simp [Text.startsWith, Text.stripStart?, hrest, hminus]
  have hblanks : (s.rest.takeWhile Text.isAsciiBlank).length = 0 := by
    rw [hrest, List.takeWhile_cons_of_neg (by simp [hblank]), List.length_nil]
  rw [step_inside hm hmode]
  simp only [State.inside, hblanks, Nat.lt_irrefl, hminusEnd, hend, hsymbol, if_false,
    Bool.false_eq_true]
  rcases hquote with rfl | rfl
  · simp only [hrest]
    exact hstring
  · simp only [hrest]
    exact hstring

/-- A token that a step finds is the next token of the run. -/
theorem run_succ_of_token {controls : Controls} {s next : State} {t : Token} {span : Span}
    (hstep : s.step controls = .token t span next) (hrest : s.rest ≠ []) (fuel : Nat) :
    (run controls (fuel + 1) s).tokens = (t, span) :: (run controls fuel next).tokens ∧
      (run controls (fuel + 1) s).error? = (run controls fuel next).error? := by
  rw [run, List.isEmpty_eq_false_iff.mpr hrest, hstep]
  exact ⟨rfl, rfl⟩

end Literals

end Lexer

namespace Filter

open Lexer

/-- A text that one of the two filters quotes, standing between quotes of one kind where the closing
delimiter does not begin, is read as one string token: it ends at the closing quote whatever stands
behind, and its value is the text. For script strings it has no quotes, no control characters and
nothing that means something in markup. -/
theorem quoted_read_back (place : FilterPlace) (value : String) (controls : Controls) {m : Marker}
    (hm : m ≠ .comment) {quote : Char} (hquote : quote = '\'' ∨ quote = '"') :
    ∃ slashed script : String,
      addslashes place (.ofString value) [] = .ok (.ofString slashed) ∧
      escape place (.ofString value) [.ofString "js"] = .ok (.ofSafeString script) ∧
      (∀ c ∈ script.toList, c ∉ "'\"<>&=;".toList ∧ Text.isControl c = false) ∧
      ∀ body ∈ [slashed, script], ∀ (s : State) (after : List Char), s.mode = modeOf m →
        s.rest = quote :: (body.toList ++ quote :: after) →
        Text.startsWith (controls.closing m) s.rest = false →
        ∃ next, next.rest = after ∧ next.mode = s.mode ∧
          s.step controls = .token (.text value) (s.spanOf (body.toList.length + 2)) next ∧
          ∀ fuel, (run controls (fuel + 1) s).tokens =
              (.text value, s.spanOf (body.toList.length + 2)) :: (run controls fuel next).tokens ∧
            (run controls (fuel + 1) s).error? = (run controls fuel next).error? := by
  have hsafe (c : Char) (hc : c ∈ (String.ofList (Text.escapeScript value.toList)).toList) :
      c ∉ "'\"<>&=;".toList ∧ Text.isControl c = false := by
    rw [String.toList_ofList] at hc
    exact Text.not_mem_escapeScript hc
  refine ⟨String.ofList (Text.addSlashes value.toList),
    String.ofList (Text.escapeScript value.toList), rfl, rfl, hsafe, ?_⟩
  intro body hbody s after hmode hrest hend
  have hread : stringBody? quote (body.toList ++ quote :: after) = some body.toList ∧
      Text.unescape body.toList = some value.toList := by
    simp only [List.mem_cons, List.not_mem_nil, or_false] at hbody
    rcases hbody with rfl | rfl
    · rw [String.toList_ofList]
      exact ⟨stringBody?_addSlashes hquote _ _, unescape_addSlashes _⟩
    · rw [String.toList_ofList]
      exact ⟨stringBody?_escapeScript hquote _ _,
        Text.unescape_of_denotes ((Text.denotes_escapeScript _).mono .inl)⟩
  have hstep := step_string hm hquote hmode hrest hend hread.1 hread.2
  rw [String.ofList_toList, State.take] at hstep
  have hsome : s.rest ≠ [] := by simp [hrest]
  refine ⟨s.skip (body.toList.length + 2), ?_, rfl, hstep, run_succ_of_token hstep hsome⟩
  rw [State.rest_skip, hrest, List.drop_succ_cons, List.drop_append]
  simp

/-- A text with a quote, a tabulator and a backslash, quoted with backslashes between single quotes
and for a script string between double quotes. -/
theorem quoted_read_back_sample :
    let single : State :=
      { cursor := { rest := "'it\\'s\t\\\\' \x7d\x7d".toList }, mode := .output }
    let double : State :=
      { cursor := { rest := "\"it\\u0027s\\u0009\\u005C\" \x7d\x7d".toList }, mode := .output }
    Marker.output ≠ .comment ∧ single.mode = modeOf .output ∧ double.mode = modeOf .output ∧
      Text.startsWith (Controls.closing {} .output) single.rest = false ∧
      Text.startsWith (Controls.closing {} .output) double.rest = false ∧
      (∃ next, next.rest = " \x7d\x7d".toList ∧
        single.step {} = .token (.text "it's\t\\") (single.spanOf 10) next) ∧
      ∃ next, next.rest = " \x7d\x7d".toList ∧
        double.step {} = .token (.text "it's\t\\") (double.spanOf 23) next := by
  intro single double
  have hsingle : Text.startsWith (Controls.closing {} .output) single.rest = false := by
    decide +kernel
  have hdouble : Text.startsWith (Controls.closing {} .output) double.rest = false := by
    decide +kernel
  refine ⟨by decide, rfl, rfl, hsingle, hdouble, ?_, ?_⟩
  · obtain ⟨slashed, script, hslashed, -, -, hread⟩ :=
      quoted_read_back ⟨"page", true⟩ "it's\t\\" {} (m := .output) (by decide) (.inl rfl)
    have htext : "it\\'s\t\\\\" = slashed := by
      have hwritten : String.ofList (Text.addSlashes "it's\t\\".toList) = "it\\'s\t\\\\" := by
        decide +kernel
      rw [← hwritten]
      exact (Value.text.inj (Except.ok.inj hslashed)).1
    subst htext
    obtain ⟨next, hrest, -, hstep, -⟩ := hread _ List.mem_cons_self single
      " \x7d\x7d".toList rfl (by decide +kernel) hsingle
    exact ⟨next, hrest, hstep⟩
  · obtain ⟨slashed, script, -, hscript, -, hread⟩ :=
      quoted_read_back ⟨"page", true⟩ "it's\t\\" {} (m := .output) (by decide) (.inr rfl)
    have htext : "it\\u0027s\\u0009\\u005C" = script := by
      have hwritten : String.ofList (Text.escapeScript "it's\t\\".toList) =
          "it\\u0027s\\u0009\\u005C" := by
        decide +kernel
      rw [← hwritten]
      exact (Value.text.inj (Except.ok.inj hscript)).1
    subst htext
    obtain ⟨next, hrest, -, hstep, -⟩ := hread _ (List.mem_cons_of_mem _ List.mem_cons_self) double
      " \x7d\x7d".toList rfl (by decide +kernel) hdouble
    exact ⟨next, hrest, hstep⟩

end Filter

end Templating
