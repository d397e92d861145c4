import Templating.Proofs.Template.Progress
import Templating.Proofs.Template.Segments

/-!
# The choice of delimiters

Pieces written out with any of several delimiters are read alike: the same tokens on the same lines,
and the same fault if there is one. The sources differ, so the readings are followed step by step
from states that agree in everything but the text that is left.
-/

namespace Templating

namespace Lexer

/-- What is found, with the lines on which the tokens begin and end. -/
def Lexed.onLines (lexed : Lexed) : List (Token × Nat × Nat) × Option Error :=
  (lexed.tokens.map fun (t, span) => (t, span.start.line, span.stop.line), lexed.error?)

/-- What decides about the next step besides the text that is left. -/
structure Place where
  mode : Mode
  line : Nat
  trimNext : Bool

/-- The place of a state. -/
def State.place (s : State) : Place := ⟨s.mode, s.line, s.trimNext⟩

/-- Moving over the text at the front adds its line breaks. -/
theorem State.line_skip {s : State} {front rest : List Char} (h : s.rest = front ++ rest) :
    (s.cursor.skip front.length).at_.line = s.line + front.count '\n' := by
  have hrest : s.cursor.rest = front ++ rest := h
  change (s.cursor.at_.advance (s.cursor.rest.take front.length)).line = _
  rw [hrest, List.take_left, Position.line_advance]
  rfl

/-- Moving into the text at the front adds the line breaks up to there. -/
theorem State.line_skip_le {s : State} {front rest : List Char} (h : s.rest = front ++ rest)
    {n : Nat} (hn : n ≤ front.length) :
    (s.cursor.skip n).at_.line = s.line + (front.take n).count '\n' := by
  have hsplit : s.rest = front.take n ++ (front.drop n ++ rest) := by
    rw [← List.append_assoc, List.take_append_drop, h]
  have hline := State.line_skip hsplit
  rwa [List.length_take_of_le hn] at hline

section Alike

variable (P : Controls → Prop)

/-- With any of the delimiters, the text that belongs to them is read alike from the place on. -/
def Alike (place : Place) (rest : Controls → List Char) : Prop :=
  ∃ found : List (Token × Nat × Nat) × Option Error, ∀ controls, P controls → ∀ s : State,
    s.place = place → s.rest = rest controls → ∀ fuel, s.rest.length ≤ fuel →
      (run controls fuel s).onLines = found

variable {P} {place next : Place} {rest rest' : Controls → List Char}

/-- Where nothing is left outside of delimiters, nothing is found. -/
theorem Alike.nil {line : Nat} {trim : Bool} (h : ∀ controls, P controls → rest controls = []) :
    Alike P ⟨.text, line, trim⟩ rest := by
  refine ⟨([], none), fun controls hcontrols s hplace hrest fuel _ => ?_⟩
  have hmode : s.mode = .text := congrArg Place.mode hplace
  rw [run_of_nil (hrest.trans (h controls hcontrols)), State.unclosed, hmode]
  rfl

variable (hP : ∀ controls, P controls → controls.Plain)

include hP

/-- A run begins with the step. -/
theorem exists_run_step {controls : Controls} (hcontrols : P controls) {s : State}
    (hne : s.rest ≠ []) {fuel : Nat} (hfuel : s.rest.length ≤ fuel) :
    ∃ left, (∀ next, (s.step controls).next? = some next → next.rest.length ≤ left) ∧
      run controls fuel s = match s.step controls with
        | .skip next => run controls left next
        | .token t span next =>
          { run controls left next with tokens := (t, span) :: (run controls left next).tokens }
        | .fault error => { error? := some error } := by
  have hpos := List.length_pos_iff.mpr hne
  obtain ⟨left, rfl⟩ : ∃ i, fuel = i + 1 := ⟨fuel - 1, by omega⟩
  have hproceeds := proceeds_step (Controls.nonempty_of_check (hP controls hcontrols).check) hne
  refine ⟨left, fun next hnext => ?_, ?_⟩
  · have hshorter := hproceeds.length_lt hne hnext
    omega
  · have hempty : ¬s.rest.isEmpty = true := fun h => hne (List.isEmpty_iff.mp h)
    exact if_neg hempty

/-- With any of the delimiters the step passes characters. -/
theorem Alike.skip (hstep : ∀ controls, P controls → rest controls ≠ [] ∧ ∀ s : State,
      s.place = place → s.rest = rest controls → ∃ after, s.step controls = .skip after ∧
        after.place = next ∧ after.rest = rest' controls)
    (h : Alike P next rest') : Alike P place rest := by
  obtain ⟨found, hfound⟩ := h
  refine ⟨found, fun controls hcontrols s hplace hrest fuel hfuel => ?_⟩
  obtain ⟨hne, hmove⟩ := hstep controls hcontrols
  obtain ⟨after, hpassed, hplace', hrest'⟩ := hmove s hplace hrest
  obtain ⟨left, hleft, hrun⟩ := exists_run_step hP hcontrols (hrest ▸ hne) hfuel
  rw [hrun, hpassed]
  exact hfound controls hcontrols after hplace' hrest' left (hleft after (by rw [hpassed]; rfl))

/-- With any of the delimiters the step finds the token, on the same lines. -/
theorem Alike.token (t : Token) (start stop : Nat)
    (hstep : ∀ controls, P controls → rest controls ≠ [] ∧ ∀ s : State,
      s.place = place → s.rest = rest controls → ∃ span after,
        s.step controls = .token t span after ∧ span.start.line = start ∧ span.stop.line = stop ∧
          after.place = next ∧ after.rest = rest' controls)
    (h : Alike P next rest') : Alike P place rest := by
  obtain ⟨found, hfound⟩ := h
  refine ⟨((t, start, stop) :: found.1, found.2),
    fun controls hcontrols s hplace hrest fuel hfuel => ?_⟩
  obtain ⟨hne, hmove⟩ := hstep controls hcontrols
  obtain ⟨span, after, htaken, hstart, hstop, hplace', hrest'⟩ := hmove s hplace hrest
  obtain ⟨left, hleft, hrun⟩ := exists_run_step hP hcontrols (hrest ▸ hne) hfuel
  have hlater :=
    hfound controls hcontrols after hplace' hrest' left (hleft after (by rw [htaken]; rfl))
  rw [hrun, htaken, ← hlater, ← hstart, ← hstop]
  rfl

/-- With any of the delimiters the step meets the fault. -/
theorem Alike.fault (error : Error)
    (hstep : ∀ controls, P controls → rest controls ≠ [] ∧ ∀ s : State,
      s.place = place → s.rest = rest controls → s.step controls = .fault error) :
    Alike P place rest := by
  refine ⟨([], some error), fun controls hcontrols s hplace hrest fuel hfuel => ?_⟩
  obtain ⟨hne, hfault⟩ := hstep controls hcontrols
  obtain ⟨left, hleft, hrun⟩ := exists_run_step hP hcontrols (hrest ▸ hne) hfuel
  rw [hrun, hfault s hplace hrest]
  rfl

end Alike

section Regions

open Segment

variable {controls : Controls}

/-- There are no line breaks in delimiters. -/
theorem count_delimiters (h : controls.Plain) (m : Marker) :
    (controls.opening m).count '\n' = 0 ∧ (controls.closing m).count '\n' = 0 := by
  have hnone : '\n' ∉ controls.opening m ++ controls.closing m :=
    fun hmem => absurd (h.chars m '\n' hmem).2 (by decide)
  rw [List.mem_append, not_or] at hnone
  exact ⟨List.count_eq_zero_of_not_mem hnone.1, List.count_eq_zero_of_not_mem hnone.2⟩

/-- The line breaks of a region are those between its delimiters. -/
theorem count_enclosed (h : controls.Plain) (m : Marker) (inner : List Char) :
    (enclosed controls m inner).count '\n' = inner.count '\n' := by
  obtain ⟨hopening, hclosing⟩ := count_delimiters h m
  rw [enclosed, List.count_append, List.count_append, hopening, hclosing, Nat.zero_add,
    Nat.add_zero]

/-- A region is as long as its parts. -/
theorem length_enclosed (controls : Controls) (m : Marker) (inner : List Char) :
    (enclosed controls m inner).length =
      (controls.opening m).length + (inner ++ controls.closing m).length :=
  List.length_append

/-- A closing delimiter is found, with a minus sign or without. -/
theorem closingAt?_eq (h : controls.Plain) (m : Marker) (after : Bool) (rest : List Char) :
    closingAt? controls m ((if after then ['-'] else []) ++ (controls.closing m ++ rest)) =
      some (after, rest) := by
  unfold closingAt?
  cases after with
  | true =>
    have hstrip : Text.stripStart? ('-' :: controls.closing m)
        ('-' :: (controls.closing m ++ rest)) = some rest := Text.stripStart?_eq_some_iff.mpr rfl
    rw [if_pos rfl, List.singleton_append, hstrip]
  | false =>
    obtain ⟨c, cs, hclosing, hminus, -⟩ := h.exists_closing m
    have hnone :
        Text.stripStart? ('-' :: controls.closing m) (controls.closing m ++ rest) = none := by
      rw [hclosing, List.cons_append, Text.stripStart?, if_neg (Ne.symm hminus)]
    have hstrip : Text.stripStart? (controls.closing m) (controls.closing m ++ rest) = some rest :=
      Text.stripStart?_eq_some_iff.mpr rfl
    rw [if_neg Bool.false_ne_true, List.nil_append, hnone, hstrip]
    rfl

/-- No closing delimiter is found where text is left that is more than a minus sign. -/
theorem closingAt?_eq_none (h : controls.Plain) (m : Marker) {inner xs : List Char}
    (hapart : Apart controls inner) (hsuffix : xs <:+ inner) (hne : xs ≠ []) (hminus : xs ≠ ['-'])
    (rest : List Char) : closingAt? controls m (xs ++ rest) = none := by
  rw [Option.eq_none_iff_forall_ne_some]
  rintro ⟨after, left⟩ hclose
  obtain ⟨d, ds, hclosing, -, -⟩ := h.exists_closing m
  have heq := eq_append_of_closingAt? hclose
  rw [hclosing] at heq
  have hd {c : Char} (hc : c ∈ xs) : c ≠ d := by
    rintro rfl
    exact hapart m c (by simp [hclosing]) (hsuffix.subset hc)
  obtain ⟨c, cs, rfl⟩ := List.exists_cons_of_ne_nil hne
  cases after with
  | false => exact hd List.mem_cons_self (List.cons.inj heq).1
  | true =>
    obtain ⟨rfl, hbehind⟩ := List.cons.inj heq
    cases cs with
    | nil => exact hminus rfl
    | cons c cs =>
      exact hd (List.mem_cons_of_mem _ List.mem_cons_self) (List.cons.inj hbehind).1

/-- White space in front of a closing delimiter ends there. -/
theorem takeWhile_before_closing (h : controls.Plain) (m : Marker) (xs rest : List Char) :
    (xs ++ (controls.closing m ++ rest)).takeWhile Text.isAsciiBlank =
      xs.takeWhile Text.isAsciiBlank := by
  obtain ⟨c, cs, hclosing, -, hblank⟩ := h.exists_closing m
  have hnone : (controls.closing m ++ rest).takeWhile Text.isAsciiBlank = [] := by
    rw [hclosing]
    exact List.takeWhile_cons_of_neg (by simp [hblank])
  rw [List.takeWhile_append, hnone, List.append_nil]
  split
  · next hall => exact (List.takeWhile_prefix _).eq_of_length hall |>.symm
  · rfl

variable {P : Controls → Prop} (hP : ∀ controls, P controls → controls.Plain)

include hP

/-- A closing delimiter is read alike. -/
theorem Alike.close {m : Marker} (hm : m ≠ .comment) {rest : Controls → List Char}
    (hrest : ∀ line trim, Alike P ⟨.text, line, trim⟩ rest) (after : Bool) (line : Nat)
    (trim : Bool) : Alike P ⟨modeOf m, line, trim⟩
      fun controls => (if after then ['-'] else []) ++ (controls.closing m ++ rest controls) := by
  refine .token hP m.ending line line (fun controls hcontrols => ⟨?_, fun s hplace hs => ?_⟩)
    (hrest line (trim || after))
  · have hclosing := (Controls.nonempty_of_check (hP controls hcontrols).check m).2
    simp [hclosing]
  · have hplain := hP controls hcontrols
    obtain ⟨hmode, rfl, rfl⟩ := Place.mk.inj hplace
    have hfront : ((if after then ['-'] else []) ++ (controls.closing m ++ rest controls)).takeWhile
        Text.isAsciiBlank = [] := by
      rw [takeWhile_before_closing hplain]
      cases after <;> rfl
    obtain ⟨next, hstep, hcursor, hnext, hmode', htrim⟩ :=
      step_close hm hmode hs hfront (closingAt?_eq hplain m after _) rfl
    have hline : (s.cursor.skip ((if after then ['-'] else []) ++
        controls.closing m).length).at_.line = s.line := by
      rw [State.line_skip (hs.trans (List.append_assoc _ _ _).symm), List.count_append,
        (count_delimiters hplain m).2]
      cases after <;> rfl
    refine ⟨_, next, hstep, rfl, hline, ?_, hnext⟩
    rw [State.place, hmode', htrim, State.line, hcursor, hline]

/-- White space between delimiters is passed alike. -/
theorem Alike.blank {m : Marker} (hm : m ≠ .comment) {xs : List Char}
    {rest : Controls → List Char} (hblank : xs.takeWhile Text.isAsciiBlank ≠ []) (line : Nat)
    (trim : Bool) (hlater : ∀ line, Alike P ⟨modeOf m, line, trim⟩ fun controls =>
      xs.dropWhile Text.isAsciiBlank ++ (controls.closing m ++ rest controls)) :
    Alike P ⟨modeOf m, line, trim⟩ fun controls => xs ++ (controls.closing m ++ rest controls) := by
  have hne : xs ≠ [] := fun hnil => hblank (by rw [hnil]; rfl)
  refine .skip hP (fun controls hcontrols => ⟨by simp [hne], fun s hplace hs => ?_⟩)
    (hlater (line + (xs.takeWhile Text.isAsciiBlank).count '\n'))
  have hplain := hP controls hcontrols
  obtain ⟨hmode, rfl, rfl⟩ := Place.mk.inj hplace
  have hfront := takeWhile_before_closing hplain m xs (rest controls)
  obtain ⟨next, hstep, hcursor, hnext, hmode', htrim⟩ :=
    step_blank hm hmode hs (by rwa [hfront])
  have hsplit : xs ++ (controls.closing m ++ rest controls) = xs.takeWhile Text.isAsciiBlank ++
      (xs.dropWhile Text.isAsciiBlank ++ (controls.closing m ++ rest controls)) := by
    rw [← List.append_assoc (xs.takeWhile _), List.takeWhile_append_dropWhile]
  rw [hfront] at hcursor
  refine ⟨next, hstep, ?_, ?_⟩
  · rw [State.place, hmode', htrim, State.line, hcursor, State.line_skip (hs.trans hsplit)]
  · change next.cursor.rest = _
    rw [hcursor]
    change s.rest.drop _ = _
    rw [hs, hsplit, List.drop_left]

/-- What stands between delimiters is read alike. -/
theorem Alike.inside {m : Marker} (hm : m ≠ .comment) {inner : List Char}
    (hspaced : beginsBlank inner.reverse = true)
    (hapart : ∀ controls, P controls → Apart controls inner) {rest : Controls → List Char}
    (hrest : ∀ line trim, Alike P ⟨.text, line, trim⟩ rest) {xs : List Char}
    (hsuffix : xs <:+ inner) (hcloses : closesStrings none xs = true) (line : Nat) (trim : Bool) :
    Alike P ⟨modeOf m, line, trim⟩ fun controls => xs ++ (controls.closing m ++ rest controls) := by
  induction hlength : xs.length using Nat.strongRecOn generalizing xs line with
  | ind length ih =>
  subst hlength
  by_cases hnil : xs = []
  · subst hnil
    exact .close hP hm hrest false line trim
  by_cases hminus : xs = ['-']
  · subst hminus
    exact .close hP hm hrest true line trim
  by_cases hfront : xs.takeWhile Text.isAsciiBlank = []
  · have hblank := (exists_of_suffix hspaced hsuffix hnil).resolve_left hminus
    have hread (zs : List Char) : tokenAt (xs ++ zs) = tokenAt xs := by
      refine tokenAt_append hblank (fun quote tail hquote heq => ?_) zs
      rw [heq, closesStrings, if_pos hquote] at hcloses
      obtain ⟨body, _, hbody, -⟩ := exists_stringBody? hcloses
      exact hbody ▸ rfl
    have hne (zs : List Char) : xs ++ zs ≠ [] := by simp [hnil]
    have hstep (controls : Controls) (hcontrols : P controls) (s : State)
        (hmode : s.mode = modeOf m) (hs : s.rest = xs ++ (controls.closing m ++ rest controls)) :
        s.step controls = s.read (tokenAt xs) := by
      have hplain := hP controls hcontrols
      have hopen := closingAt?_eq_none hplain m (hapart controls hcontrols) hsuffix hnil hminus
        (controls.closing m ++ rest controls)
      have hfront' := takeWhile_before_closing hplain m xs (rest controls)
      rw [step_inside hm hmode, inside_eq_read (by rwa [hs, hfront']) (by rwa [hs]), hs, hread]
    cases htoken : tokenAt xs with
    | error error =>
      refine .fault hP (error line) fun controls hcontrols => ⟨hne _, fun s hplace hs => ?_⟩
      obtain ⟨hmode, rfl, -⟩ := Place.mk.inj hplace
      rw [hstep controls hcontrols s hmode hs, htoken]
      rfl
    | ok found =>
      obtain ⟨t, n⟩ := found
      obtain ⟨hpos, hle, hfrom⟩ := readsAt_of_tokenAt htoken
      have hlater : closesStrings none (xs.drop n) = true :=
        closesStrings_of_readFrom hfrom (by rwa [List.take_append_drop])
      refine .token hP t line (line + (xs.take n).count '\n')
        (fun controls hcontrols => ⟨hne _, fun s hplace hs => ?_⟩)
        (ih _ (length_drop_lt hnil hpos) ((List.drop_suffix n xs).trans hsuffix) hlater
          (line + (xs.take n).count '\n') rfl)
      obtain ⟨hmode, rfl, rfl⟩ := Place.mk.inj hplace
      have hline : (s.cursor.skip n).at_.line = s.line + (xs.take n).count '\n' :=
        State.line_skip_le hs hle
      rw [hstep controls hcontrols s hmode hs, htoken]
      refine ⟨_, _, rfl, rfl, hline, ?_, ?_⟩
      · rw [State.place, State.mode_skip, hmode, ← hline]
        rfl
      · rw [State.rest_skip, hs, List.drop_append_of_le_length hle]
  · refine .blank hP hm hfront line trim fun line => ?_
    have hsome : xs.dropWhile Text.isAsciiBlank <:+ xs := List.dropWhile_suffix _
    refine ih _ (length_dropWhile_lt hfront) (hsome.trans hsuffix) ?_ line rfl
    rw [← List.takeWhile_append_dropWhile (p := Text.isAsciiBlank) (l := xs)] at hcloses
    rwa [closesStrings_append fun c hc => ?_] at hcloses
    have hb : Text.isAsciiBlank c = true := List.mem_takeWhile_imp hc
    exact ⟨ne_of_isAsciiBlank hb (by decide), ne_of_isAsciiBlank hb (by decide)⟩

/-- Literal text in front of an opening delimiter or of the end is read alike. -/
theorem Alike.literal (minus : Bool) {before : List Char}
    (hapart : ∀ controls, P controls → Apart controls before) {rest : Controls → List Char}
    (hopening : ∀ controls, P controls → AtOpening controls (rest controls) ∧
      opensWithMinus controls (rest controls) = minus)
    (hrest : ∀ line trim, Alike P ⟨.text, line, trim⟩ rest) (line : Nat) (trim : Bool) :
    Alike P ⟨.text, line, trim⟩ fun controls => before ++ rest controls := by
  by_cases hne : before = []
  · subst hne
    exact hrest line trim
  generalize hblanks : (if trim then (before.takeWhile Text.isBlank).length else 0) = blanks
  generalize hlead : kept trim minus before = lead
  have hstep (controls : Controls) (hcontrols : P controls) (s : State)
      (hplace : s.place = ⟨.text, line, trim⟩) (hs : s.rest = before ++ rest controls) :
      blanks + lead.length ≤ before.length ∧ ∃ next, next.cursor = s.cursor.skip before.length ∧
        next.rest = rest controls ∧ next.mode = .text ∧ next.trimNext = false ∧
        s.step controls = if lead.isEmpty then .skip next
          else .token (.data (String.ofList lead))
            ⟨(s.cursor.skip blanks).at_, (s.cursor.skip (blanks + lead.length)).at_⟩ next := by
    have hplain := hP controls hcontrols
    obtain ⟨hmode, -, rfl⟩ := Place.mk.inj hplace
    obtain ⟨hopen, rfl⟩ := hopening controls hcontrols
    exact step_literal hplain.solid hmode hs hne
      ((hapart controls hcontrols).silent hplain _) hopen hblanks hlead
  have hline {controls : Controls} {s : State} (hplace : s.place = ⟨.text, line, trim⟩)
      (hs : s.rest = before ++ rest controls) {n : Nat} (hn : n ≤ before.length) :
      (s.cursor.skip n).at_.line = line + (before.take n).count '\n' := by
    obtain ⟨-, rfl, -⟩ := Place.mk.inj hplace
    exact State.line_skip_le hs hn
  have hafter {controls : Controls} {s next : State} (hplace : s.place = ⟨.text, line, trim⟩)
      (hs : s.rest = before ++ rest controls) (hcursor : next.cursor = s.cursor.skip before.length)
      (hmode : next.mode = .text) (htrim : next.trimNext = false) :
      next.place = ⟨.text, line + before.count '\n', false⟩ := by
    have hbehind := hline hplace hs (Nat.le_refl _)
    rw [List.take_length] at hbehind
    rw [State.place, hmode, htrim, State.line, hcursor, hbehind]
  by_cases hempty : lead.isEmpty = true
  · refine .skip hP (fun controls hcontrols => ⟨by simp [hne], fun s hplace hs => ?_⟩)
      (hrest (line + before.count '\n') false)
    obtain ⟨-, next, hcursor, hnext, hmode, htrim, hstep⟩ := hstep controls hcontrols s hplace hs
    rw [if_pos hempty] at hstep
    exact ⟨next, hstep, hafter hplace hs hcursor hmode htrim, hnext⟩
  · refine .token hP (.data (String.ofList lead)) (line + (before.take blanks).count '\n')
      (line + (before.take (blanks + lead.length)).count '\n')
      (fun controls hcontrols => ⟨by simp [hne], fun s hplace hs => ?_⟩)
      (hrest (line + before.count '\n') false)
    obtain ⟨hle, next, hcursor, hnext, hmode, htrim, hstep⟩ := hstep controls hcontrols s hplace hs
    rw [if_neg hempty] at hstep
    exact ⟨_, next, hstep, hline hplace hs (by omega), hline hplace hs hle,
      hafter hplace hs hcursor hmode htrim, hnext⟩

/-- Comments are passed alike. -/
theorem Alike.comment {inner : List Char} (hspaced : Spaced inner)
    (hapart : ∀ controls, P controls → Apart controls inner) {rest : Controls → List Char}
    (hrest : ∀ line trim, Alike P ⟨.text, line, trim⟩ rest) (line : Nat) (trim : Bool) :
    Alike P ⟨.text, line, trim⟩ fun controls =>
      enclosed controls .comment inner ++ rest controls := by
  refine .skip hP (fun controls hcontrols => ?_)
    (hrest (line + inner.count '\n') (trim || inner.getLast? == some '-'))
  have hplain := hP controls hcontrols
  have hdelimiters := Controls.nonempty_of_check hplain.check .comment
  refine ⟨by simp [enclosed, hdelimiters.1], fun s hplace hs => ?_⟩
  obtain ⟨hmode, rfl, rfl⟩ := Place.mk.inj hplace
  have hopen := openAt?_enclosed hplain .comment hspaced (rest controls)
  have hsplit := ((hapart controls hcontrols).onlyAtEnd hplain .comment).2.splitAt?_eq
    hdelimiters.2 (rest controls)
  obtain ⟨next, hstep, hcursor, hnext, hmode', htrim⟩ :=
    step_comment hmode (hs ▸ hopen) hsplit
  refine ⟨next, hstep, ?_, hnext⟩
  have hlength : (controls.opening .comment).length + inner.length +
      (controls.closing .comment).length = (enclosed controls .comment inner).length := by
    rw [length_enclosed, List.length_append, Nat.add_assoc]
  rw [hlength] at hcursor
  rw [State.place, hmode', htrim, State.line, hcursor, State.line_skip hs, count_enclosed hplain]

/-- Output points and tags are read alike. -/
theorem Alike.region {m : Marker} (hm : m ≠ .comment) {inner : List Char}
    (hregular : Regular (.region m inner))
    (hapart : ∀ controls, P controls → Apart controls inner)
    (hunmistakable : ∀ controls, P controls → Unmistakable controls (.region m inner))
    {rest : Controls → List Char} (hrest : ∀ line trim, Alike P ⟨.text, line, trim⟩ rest)
    (line : Nat) (trim : Bool) :
    Alike P ⟨.text, line, trim⟩ fun controls => enclosed controls m inner ++ rest controls := by
  obtain ⟨hspaced, hcloses, hcore⟩ := hregular
  have hcloses' : closesStrings none (inner.drop (minusLength inner)) = true := by
    have hquotes : ∀ c ∈ inner.take (minusLength inner), c ≠ '\'' ∧ c ≠ '"' := by
      rcases take_minusLength inner with hnil | hminus
      · simp [hnil]
      · simp [hminus]
    rw [← closesStrings_append hquotes, List.take_append_drop]
    exact hcloses hm
  refine .token hP m.starting line line (fun controls hcontrols => ?_)
    (Alike.inside hP hm hspaced.2 hapart hrest (List.drop_suffix (minusLength inner) inner)
      hcloses' line trim)
  have hplain := hP controls hcontrols
  have hdelimiters := Controls.nonempty_of_check hplain.check m
  refine ⟨by simp [enclosed, hdelimiters.1], fun s hplace hs => ?_⟩
  obtain ⟨hmode, rfl, rfl⟩ := Place.mk.inj hplace
  have hopen := openAt?_enclosed hplain m hspaced (rest controls)
  have hkind : m = .output ∨ m = .tag ∧ simpleTag? "raw".toList (controls.closing .tag)
      (inner ++ controls.closing m ++ rest controls) = none := by
    cases m with
    | output => exact .inl rfl
    | tag =>
      exact .inr ⟨rfl, simpleTag?_eq_none hplain hspaced (hapart controls hcontrols) (hcore rfl)
        (hunmistakable controls hcontrols) (rest controls)⟩
    | comment => exact absurd rfl hm
  obtain ⟨next, hstep, hcursor, hnext, hmode', htrim⟩ := step_region hmode (hs ▸ hopen) hkind rfl
  have hinner : inner ≠ [] := by
    rintro rfl
    exact absurd hspaced.1 (by decide)
  rw [List.append_assoc, minusLength_append hinner] at hcursor hstep hnext
  have hline : (s.cursor.skip ((controls.opening m).length + minusLength inner)).at_.line =
      s.line := by
    have hsplit : s.rest = (controls.opening m ++ inner.take (minusLength inner)) ++
        (inner.drop (minusLength inner) ++ (controls.closing m ++ rest controls)) := by
      rw [hs, enclosed, List.append_assoc, List.append_assoc, List.append_assoc,
        ← List.append_assoc (inner.take _), List.take_append_drop]
    have hskip := State.line_skip hsplit
    rw [List.length_append, List.length_take_of_le (minusLength_le inner), List.count_append,
      (count_delimiters hplain m).1] at hskip
    rw [hskip]
    rcases take_minusLength inner with hnil | hminus
    · simp [hnil]
    · simp [hminus]
  refine ⟨_, next, hstep, rfl, hline, ?_, ?_⟩
  · rw [State.place, hmode', htrim, State.line, hcursor, hline]
  · rw [hnext, List.drop_append_of_le_length (minusLength_le inner)]

/-- Raw blocks are read alike. -/
theorem Alike.raw {start content stop : List Char} (hregular : Regular (.raw start content stop))
    (hapart : ∀ controls, P controls → Apart controls content) {rest : Controls → List Char}
    (hrest : ∀ line trim, Alike P ⟨.text, line, trim⟩ rest) (line : Nat) (trim : Bool) :
    Alike P ⟨.text, line, trim⟩ fun controls =>
      (Segment.raw start content stop).written controls ++ rest controls := by
  obtain ⟨⟨hspaced, hcore⟩, hspaced', hcore'⟩ := hregular
  refine .token hP (.data (String.ofList (kept (minusLength start.reverse == 1)
      (minusLength stop == 1) content)))
    (line + start.count '\n') (line + (start.count '\n' + content.count '\n'))
    (fun controls hcontrols => ?_)
    (hrest (line + (start.count '\n' + content.count '\n' + stop.count '\n'))
      (trim || minusLength stop.reverse == 1))
  have hplain := hP controls hcontrols
  have hdelimiters := Controls.nonempty_of_check hplain.check .tag
  refine ⟨by simp [written, enclosed, hdelimiters.1], fun s hplace hs => ?_⟩
  obtain ⟨hmode, rfl, rfl⟩ := Place.mk.inj hplace
  -- the block is taken apart into the start tag, the content and the end tag
  generalize hinner : content ++ (enclosed controls .tag stop ++ rest controls) = inner
  have hfront : s.rest = enclosed controls .tag start ++ inner := by
    rw [hs, written, ← hinner]
    simp
  have hopen := openAt?_enclosed hplain .tag hspaced inner
  have hstart := simpleTag?_of_core hplain hcore (by decide) inner
  have hstop := simpleTag?_of_core hplain hcore' (by decide) (rest controls)
  have hend : findRawEnd? (controls.opening .tag) (controls.closing .tag) 0 0 inner =
      some (content.length, (controls.opening .tag).length + (stop ++ controls.closing .tag).length,
        minusLength stop == 1, minusLength stop.reverse == 1) := by
    have hnonempty : stop ≠ [] := by
      rintro rfl
      exact absurd hspaced'.1 (by decide)
    have hfound := findRawEnd?_of_end hdelimiters.1
      ((hapart controls hcontrols).onlyAtEnd hplain .tag).1 hstop 0
    rw [Nat.zero_add, List.append_assoc stop, minusLength_append hnonempty] at hfound
    rw [← hfound, ← hinner]
    simp [enclosed]
  have hdrop : (start ++ controls.closing .tag ++ inner).drop
      (start ++ controls.closing .tag).length = inner := List.drop_left
  obtain ⟨next, hstep, hcursor, hnext, hmode', htrim⟩ :=
    step_raw hmode (hfront ▸ hopen) hstart (by rwa [hdrop]) (length_enclosed _ _ _)
  rw [hdrop] at hstep hnext
  have hcontent : inner.take content.length = content := by rw [← hinner, List.take_left]
  have hbefore : (s.cursor.skip (enclosed controls .tag start).length).at_.line =
      s.line + start.count '\n' := by
    rw [State.line_skip hfront, count_enclosed hplain]
  have hinside : (s.cursor.skip ((enclosed controls .tag start).length + content.length)).at_.line =
      s.line + (start.count '\n' + content.count '\n') := by
    rw [← hinner, ← List.append_assoc] at hfront
    rw [← List.length_append, State.line_skip hfront, List.count_append, count_enclosed hplain]
  have hbehind : (s.cursor.skip ((enclosed controls .tag start).length + (content.length +
      ((controls.opening .tag).length + (stop ++ controls.closing .tag).length)))).at_.line =
        s.line + (start.count '\n' + content.count '\n' + stop.count '\n') := by
    rw [← length_enclosed, ← List.length_append, ← List.length_append]
    have hskip := State.line_skip hs
    rw [written] at hskip
    rw [hskip, List.count_append, List.count_append, count_enclosed hplain, count_enclosed hplain,
      Nat.add_assoc]
  rw [hcontent] at hstep
  refine ⟨_, next, hstep, hbefore, hinside, ?_, ?_⟩
  · rw [State.place, hmode', htrim, State.line, hcursor, hbehind]
  · rw [hnext, ← hinner, ← length_enclosed, ← List.length_append, ← List.append_assoc,
      List.drop_left]

omit hP in
/-- A spaced text between delimiters begins with an opening delimiter, and whether there is a minus
sign in it is seen in the text. -/
theorem opening_enclosed (h : controls.Plain) (m : Marker) {inner : List Char}
    (hspaced : Spaced inner) (rest : List Char) :
    AtOpening controls (enclosed controls m inner ++ rest) ∧
      opensWithMinus controls (enclosed controls m inner ++ rest) = (minusLength inner == 1) := by
  have hopen := openAt?_enclosed h m hspaced rest
  have hinner : inner ≠ [] := by
    rintro rfl
    exact absurd hspaced.1 (by decide)
  refine ⟨.inr (by rw [hopen]; rfl), ?_⟩
  rw [opensWithMinus, hopen, List.append_assoc]
  change (minusLength (inner ++ (controls.closing m ++ rest)) == 1) = _
  rw [minusLength_append hinner]

/-- Pieces behind literal text are read alike. -/
theorem alike_allWritten {segments : List Segment} (hregular : ∀ p ∈ segments, Regular p)
    (hapart : ∀ controls, P controls → ∀ p ∈ segments, ∀ text ∈ p.texts, Apart controls text)
    (hunmistakable : ∀ controls, P controls → ∀ p ∈ segments, Unmistakable controls p)
    {before : List Char} (hbefore : ∀ controls, P controls → Apart controls before) (line : Nat)
    (trim : Bool) :
    Alike P ⟨.text, line, trim⟩ fun controls => before ++ allWritten controls segments := by
  induction segments generalizing before line trim with
  | nil =>
    refine .literal hP false hbefore (fun controls hcontrols => ⟨.inl rfl, ?_⟩)
      (fun line trim => .nil fun _ _ => rfl) line trim
    rw [opensWithMinus, (hP controls hcontrols).solid.openAt?_nil]
    rfl
  | cons p segments ih =>
    obtain ⟨hp, hregular⟩ := List.forall_mem_cons.mp hregular
    have hapart' (controls : Controls) (hcontrols : P controls) :=
      List.forall_mem_cons.mp (hapart controls hcontrols)
    have hunmistakable' (controls : Controls) (hcontrols : P controls) :=
      List.forall_mem_cons.mp (hunmistakable controls hcontrols)
    have hlater := @ih hregular (fun controls hcontrols => (hapart' controls hcontrols).2)
      fun controls hcontrols => (hunmistakable' controls hcontrols).2
    have hrest := @hlater [] fun _ _ _ _ _ => List.not_mem_nil
    have htext {text : List Char} (hmem : text ∈ p.texts) (controls : Controls)
        (hcontrols : P controls) : Apart controls text :=
      (hapart' controls hcontrols).1 text hmem
    cases p with
    | literal text =>
      have hboth (controls : Controls) (hcontrols : P controls) : Apart controls (before ++ text) :=
        fun m c hc hmem => (List.mem_append.mp hmem).elim (hbefore controls hcontrols m c hc)
          (htext (List.mem_singleton.mpr rfl) controls hcontrols m c hc)
      have hjoined := hlater hboth line trim
      simp only [List.append_assoc] at hjoined
      exact hjoined
    | region m inner =>
      refine .literal hP (minusLength inner == 1) hbefore
        (fun controls hcontrols => opening_enclosed (hP controls hcontrols) m hp.1 _)
        (fun line trim => ?_) line trim
      have hinner := @htext inner (List.mem_singleton.mpr rfl)
      by_cases hm : m = .comment
      · subst hm
        exact .comment hP hp.1 hinner hrest line trim
      · exact .region hP hm hp hinner (fun controls hcontrols =>
          (hunmistakable' controls hcontrols).1) hrest line trim
    | raw start content stop =>
      refine .literal hP (minusLength start == 1) hbefore (fun controls hcontrols => ?_)
        (fun line trim => .raw hP hp (@htext content (List.mem_singleton.mpr rfl)) hrest line trim)
        line trim
      have hopening := opening_enclosed (hP controls hcontrols) .tag hp.1.1
        (content ++ enclosed controls .tag stop ++ allWritten controls segments)
      rw [← List.append_assoc] at hopening
      exact hopening

end Regions

open Segment

/-- Take two sets of delimiters without white space and minus signs, and pieces in whose texts there
is no character of them. If between delimiters there is white space at both ends, string literals
are closed and raw tags stand in pairs, and if no closing delimiter goes together with the word
`raw` where a tag is nothing but white space, then the pieces written out with either delimiters
have the same tokens on the same lines, and the same fault or none. -/
theorem lex_allWritten_eq {first second : Controls} (hfirst : first.Plain) (hsecond : second.Plain)
    {segments : List Segment} (hregular : ∀ p ∈ segments, Regular p)
    (hapart : ∀ p ∈ segments, ∀ text ∈ p.texts, Apart first text ∧ Apart second text)
    (hunmistakable : ∀ p ∈ segments, Unmistakable first p ∧ Unmistakable second p) :
    (lex first (String.ofList (allWritten first segments))).onLines =
      (lex second (String.ofList (allWritten second segments))).onLines := by
  let P (controls : Controls) : Prop := controls = first ∨ controls = second
  have hboth {Q : Controls → Prop} (h₁ : Q first) (h₂ : Q second) (controls : Controls)
      (hcontrols : P controls) : Q controls := by
    rcases hcontrols with rfl | rfl
    · exact h₁
    · exact h₂
  have hnil (controls : Controls) (_ : P controls) : Apart controls [] :=
    fun _ _ _ => List.not_mem_nil
  obtain ⟨found, hfound⟩ := alike_allWritten (hboth hfirst hsecond) hregular
    (hboth (fun p hp text htext => (hapart p hp text htext).1)
      fun p hp text htext => (hapart p hp text htext).2)
    (hboth (fun p hp => (hunmistakable p hp).1) fun p hp => (hunmistakable p hp).2) hnil 1 false
  have hlex (controls : Controls) (hcontrols : P controls) :
      (lex controls (String.ofList (allWritten controls segments))).onLines = found := by
    generalize hsource : String.ofList (allWritten controls segments) = source
    have htext : source.toList = allWritten controls segments := by
      rw [← hsource, String.toList_ofList]
    exact hfound controls hcontrols (.atStart source) rfl htext _ (Nat.le_refl _)
  rw [hlex first (.inl rfl), hlex second (.inr rfl)]

/-- Delimiters made of operators and quotes, one of them the front of another. -/
theorem lex_allWritten_eq_sample :
    let first : Controls := ⟨⟨"<", ">"⟩, ⟨"<%", "'>"⟩, ⟨"<%%", ">"⟩⟩
    let second : Controls := {}
    let segments : List Segment := [.literal "a \n".toList, .region .output "- x\n + 1 ".toList,
      .region .comment " don\n ".toList, .region .tag " \"\n\" -".toList,
      .raw " raw -".toList " b ".toList "- endraw ".toList, .literal " c".toList]
    first.Plain ∧ second.Plain ∧ (∀ p ∈ segments, Regular p) ∧
      (∀ p ∈ segments, ∀ text ∈ p.texts, Apart first text ∧ Apart second text) ∧
      (∀ p ∈ segments, Unmistakable first p ∧ Unmistakable second p) ∧
      (lex first (String.ofList (allWritten first segments))).onLines =
        (lex second (String.ofList (allWritten second segments))).onLines :=
  ⟨⟨rfl, by decide⟩, ⟨rfl, by decide⟩, by decide, by decide, by decide,
    lex_allWritten_eq ⟨rfl, by decide⟩ ⟨rfl, by decide⟩ (by decide) (by decide) (by decide)⟩

/-- What a closing delimiter that goes together with the word `raw` does: a tag of white space,
whose closing delimiter is followed by an opening delimiter spelled like the word, is taken for the
start of a raw block. -/
theorem not_forall_lex_allWritten_eq :
    ¬∀ (first second : Controls) (segments : List Segment), first.Plain → second.Plain →
      (∀ p ∈ segments, Regular p) →
      (∀ p ∈ segments, ∀ text ∈ p.texts, Apart first text ∧ Apart second text) →
      (lex first (String.ofList (allWritten first segments))).onLines =
        (lex second (String.ofList (allWritten second segments))).onLines := by
  intro h
  have heq := h ⟨⟨"raw", ">"⟩, ⟨"<", "raw"⟩, ⟨"\x7b#", "#\x7d"⟩⟩ {}
    [.region .tag " ".toList, .region .output " x ".toList] ⟨rfl, by decide⟩ ⟨rfl, by decide⟩
    (by decide) (by decide)
  exact absurd (congrArg (fun found => found.2.isSome) heq) (by decide +kernel)

end Lexer

end Templating
