import Templating.Proofs.Template.Delimiters
import Templating.Proofs.Template.Division

/-!
# Progress and positions

Whatever delimiters are accepted, every step of the lexer removes characters, so asking for one
token after the other comes to an end. The steps keep account of where they are: the span of a token
is the stretch of the source that the token is read from.
-/

namespace Templating

namespace Position

/-- Moving over a text adds its length in bytes. -/
theorem offset_advance (p : Position) (cs : List Char) :
    (p.advance cs).offset = p.offset + Text.byteLength cs := by
  induction cs generalizing p with
  | nil => rfl
  | cons c cs ih =>
    have hstep : (p.step c).offset = p.offset + c.utf8Size := by
      unfold step
      split <;> rfl
    change ((p.step c).advance cs).offset = p.offset + (c.utf8Size + Text.byteLength cs)
    rw [ih, hstep, Nat.add_assoc]

/-- Moving over a text adds its line breaks. -/
theorem line_advance (p : Position) (cs : List Char) :
    (p.advance cs).line = p.line + cs.count '\n' := by
  induction cs generalizing p with
  | nil => rfl
  | cons c cs ih =>
    change ((p.step c).advance cs).line = _
    rw [ih, List.count_cons]
    unfold step
    by_cases hbreak : c = '\n'
    · simp [hbreak, Nat.add_comm, Nat.add_left_comm]
    · simp [hbreak]

end Position

namespace Lexer

section

variable (controls : Controls)

/-- A token is found at the text that stands between two others in a source: literal text is the
text itself, the content of a raw block stands untrimmed between the two tags of the block,
delimiters take in their minus signs, and between delimiters the text is read as the token. -/
inductive StandsFor : (before text behind : List Char) → Token → Prop
  | literal {before text behind : List Char} : text ≠ [] →
      StandsFor before text behind (.data (String.ofList text))
  | raw {front tag content behind : List Char} {endLength : Nat}
      {startAfter stopBefore stopAfter : Bool} :
      simpleTag? "raw".toList (controls.closing .tag) (tag ++ content ++ behind) =
        some (tag.length, startAfter) →
      findRawEnd? (controls.opening .tag) (controls.closing .tag) 0 0 (content ++ behind) =
        some (content.length, endLength, stopBefore, stopAfter) →
      StandsFor (front ++ controls.opening .tag ++ tag) content behind
        (.data (String.ofList (kept startAfter stopBefore content)))
  | starting {before sign behind : List Char} (m : Marker) : m ≠ .comment →
      sign = [] ∨ sign = ['-'] →
      StandsFor before (controls.opening m ++ sign) behind m.starting
  | ending {before sign behind : List Char} (m : Marker) : m ≠ .comment →
      sign = [] ∨ sign = ['-'] →
      StandsFor before (sign ++ controls.closing m) behind m.ending
  | inner {before text behind : List Char} {t : Token} : ReadFrom t text →
      StandsFor before text behind t

/-- The token is found behind the cursor, between the two numbers of characters, and its span says
where. -/
structure FoundAt (c : Cursor) (t : Token) (span : Span) (start stop : Nat) : Prop where
  le : start ≤ stop
  span : span = ⟨(c.skip start).at_, (c.skip stop).at_⟩
  text : StandsFor controls (c.rest.take start) ((c.rest.drop start).take (stop - start))
    (c.rest.drop stop) t

/-- A step removes characters, and the token that it finds is among them. -/
inductive Proceeds (c : Cursor) : Step → Prop
  | skip {n : Nat} {next : State} : 0 < n → next.cursor = c.skip n → Proceeds c (.skip next)
  | token {t : Token} {span : Span} {start stop n : Nat} {next : State} :
      FoundAt controls c t span start stop → stop ≤ n → 0 < n → next.cursor = c.skip n →
      Proceeds c (.token t span next)
  | fault {error : Error} : Proceeds c (.fault error)

end

variable {controls : Controls}

/-- What stands for a token does so behind more text. -/
theorem StandsFor.after {before text behind : List Char} {t : Token}
    (h : StandsFor controls before text behind t) (more : List Char) :
    StandsFor controls (more ++ before) text behind t := by
  cases h with
  | literal hne => exact .literal hne
  | raw hstart hend =>
    rw [← List.append_assoc, ← List.append_assoc]
    exact .raw hstart hend
  | starting m hm hsign => exact .starting m hm hsign
  | ending m hm hsign => exact .ending m hm hsign
  | inner hfrom => exact .inner hfrom

/-- What is found further on is found so many characters later. -/
theorem FoundAt.of_skip {c : Cursor} {t : Token} {span : Span} {n start stop : Nat}
    (h : FoundAt controls (c.skip n) t span start stop) :
    FoundAt controls c t span (n + start) (n + stop) where
  le := Nat.add_le_add_left h.le n
  span := by rw [h.span, Cursor.skip_skip, Cursor.skip_skip]
  text := by
    have htext := h.text.after (c.rest.take n)
    simp only [Cursor.skip, List.drop_drop] at htext
    rw [List.take_add, Nat.add_sub_add_left]
    exact htext

section Steps

variable {s : State}

/-- Moving over more characters leads further. -/
theorem Cursor.offset_skip_le (c : Cursor) {i j : Nat} (h : i ≤ j) :
    (c.skip i).at_.offset ≤ (c.skip j).at_.offset := by
  obtain ⟨n, rfl⟩ := Nat.exists_eq_add_of_le h
  rw [← Cursor.skip_skip]
  change _ ≤ (Position.advance _ _).offset
  rw [Position.offset_advance]
  exact Nat.le_add_right _ _

/-- What is found behind the cursor begins behind it. -/
theorem FoundAt.offset_le {c : Cursor} {t : Token} {span : Span} {start stop : Nat}
    (h : FoundAt controls c t span start stop) : c.at_.offset ≤ span.start.offset := by
  rw [h.span]
  exact c.offset_skip_le (Nat.zero_le start)

/-- A token is taken off the front. -/
theorem FoundAt.front {t : Token} {n : Nat}
    (h : StandsFor controls [] (s.rest.take n) (s.rest.drop n) t) :
    FoundAt controls s.cursor t (s.spanOf n) 0 n :=
  ⟨Nat.zero_le n, rfl, h⟩

/-- Between delimiters a step removes characters. -/
theorem proceeds_inside {m : Marker} (hm : m ≠ .comment) (hclosing : controls.closing m ≠ [])
    (hmode : s.mode = modeOf m) :
    Proceeds controls s.cursor (s.step controls) := by
  by_cases hfront : s.rest.takeWhile Text.isAsciiBlank = []
  · cases hclose : closingAt? controls m s.rest with
    | some found =>
      obtain ⟨after, rest⟩ := found
      obtain ⟨next, hstep, hcursor, -⟩ := step_close hm hmode rfl hfront hclose rfl
      have hsign : (if after then ['-'] else []) = [] ∨ (if after then ['-'] else []) = ['-'] := by
        cases after <;> simp
      have hpos := List.length_pos_iff.mpr hclosing
      rw [hstep]
      refine .token (.front ?_) (Nat.le_refl _) (by rw [List.length_append]; omega) hcursor
      rw [eq_append_of_closingAt? hclose, List.take_left, List.drop_left]
      exact .ending m hm hsign
    | none =>
      cases hread : tokenAt s.rest with
      | ok found =>
        obtain ⟨t, n⟩ := found
        have hreads := readsAt_of_tokenAt hread
        rw [step_inside hm hmode, inside_eq_read hfront hclose, hread]
        exact .token (.front (.inner hreads.text)) (Nat.le_refl n) hreads.pos rfl
      | error error =>
        rw [step_inside hm hmode, inside_eq_read hfront hclose, hread]
        exact .fault
  · obtain ⟨next, hstep, hcursor, -⟩ := step_blank hm hmode rfl hfront
    rw [hstep]
    exact .skip (List.length_pos_iff.mpr hfront) hcursor

/-- A tag of one word stands in front of the text it is recognised in. -/
theorem le_length_of_simpleTag? {name closing cs : List Char} {n : Nat} {after : Bool}
    (h : simpleTag? name closing cs = some (n, after)) : n ≤ cs.length := by
  unfold simpleTag? at h
  simp only [Option.bind_eq_bind, Option.bind_eq_some_iff] at h
  obtain ⟨_, _, rest, _, h⟩ := h
  obtain ⟨rfl, -⟩ := Prod.mk.inj (Option.some.inj h)
  exact Nat.sub_le _ _

/-- The content of a raw block stands in front of the text its end is found in. -/
theorem le_length_of_findRawEnd? {opening closing cs : List Char}
    {skip before length endLength : Nat} {stopBefore stopAfter : Bool}
    (h : findRawEnd? opening closing skip before cs =
      some (length, endLength, stopBefore, stopAfter)) : length ≤ before + cs.length := by
  induction cs generalizing skip before with
  | nil => cases h
  | cons c cs ih =>
    have hlater {skip' : Nat} (h : findRawEnd? opening closing skip' (before + 1) cs =
        some (length, endLength, stopBefore, stopAfter)) : length ≤ before + (cs.length + 1) := by
      have := ih h
      omega
    unfold findRawEnd? at h
    split at h
    · exact hlater h
    · split at h
      · exact hlater h
      · split at h
        · obtain ⟨rfl, -⟩ := Prod.mk.inj (Option.some.inj h)
          exact Nat.le_add_right _ _
        · exact hlater h

/-- At an opening delimiter a step removes characters. -/
theorem proceeds_opening {m : Marker} {inner : List Char} (hopening : controls.opening m ≠ [])
    (hmode : s.mode = .text) (hopen : controls.openAt? s.rest = some (m, inner)) :
    Proceeds controls s.cursor (s.step controls) := by
  have hpos := List.length_pos_iff.mpr hopening
  have hrest := eq_append_of_openAt? hopen
  have hregion (hm : m = .output ∨
      m = .tag ∧ simpleTag? "raw".toList (controls.closing .tag) inner = none) :
      Proceeds controls s.cursor (s.step controls) := by
    obtain ⟨next, hstep, hcursor, -⟩ := step_region hmode hopen hm rfl
    rw [hstep]
    refine .token (.front ?_) (Nat.le_refl _) (by omega) hcursor
    rw [hrest, List.take_length_add_append]
    exact .starting m (ne_comment_of hm) (take_minusLength inner)
  cases m with
  | output => exact hregion (.inl rfl)
  | comment =>
    cases hsplit : Text.splitAt? (controls.closing .comment) inner with
    | none =>
      rw [step_enter hmode hopen]
      simp only [State.enter, hsplit]
      exact .fault
    | some parts =>
      obtain ⟨next, hstep, hcursor, -⟩ := step_comment hmode hopen hsplit
      rw [hstep]
      exact .skip (by omega) hcursor
  | tag =>
    cases hstart : simpleTag? "raw".toList (controls.closing .tag) inner with
    | none => exact hregion (.inr ⟨rfl, hstart⟩)
    | some start =>
      obtain ⟨tagLength, startAfter⟩ := start
      cases hend : findRawEnd? (controls.opening .tag) (controls.closing .tag) 0 0
          (inner.drop tagLength) with
      | none =>
        obtain ⟨behind, hstep, -, hbehind, -⟩ := step_eq_raw hmode hopen hstart
        rw [hstep, State.raw, hbehind, hend]
        exact .fault
      | some stop =>
        obtain ⟨length, endLength, stopBefore, stopAfter⟩ := stop
        obtain ⟨next, hstep, hcursor, -⟩ := step_raw hmode hopen hstart hend rfl
        obtain ⟨tag, after, rfl, rfl⟩ : ∃ tag after, inner = tag ++ after ∧
            tagLength = tag.length :=
          ⟨_, _, (List.take_append_drop tagLength inner).symm,
            (List.length_take_of_le (le_length_of_simpleTag? hstart)).symm⟩
        rw [List.drop_left] at hend hstep
        obtain ⟨content, behind, rfl, rfl⟩ : ∃ content behind, after = content ++ behind ∧
            length = content.length :=
          ⟨_, _, (List.take_append_drop length after).symm, (List.length_take_of_le
            ((le_length_of_findRawEnd? hend).trans_eq (Nat.zero_add _))).symm⟩
        rw [List.take_left] at hstep
        rw [hstep]
        refine .token ⟨Nat.le_add_right _ _, rfl, ?_⟩ (by omega) (by omega) hcursor
        have hfront : s.cursor.rest = controls.opening .tag ++ tag ++ (content ++ behind) :=
          hrest.trans (List.append_assoc _ _ _).symm
        rw [Nat.add_sub_cancel_left, ← List.length_append, ← List.drop_drop, hfront, List.take_left,
          List.drop_left, List.take_left, List.drop_left]
        exact (StandsFor.raw (by rwa [List.append_assoc]) hend :
          StandsFor controls ([] ++ controls.opening .tag ++ tag) content behind _)

/-- What is found before the next opening delimiter stands in front of the text. -/
theorem prefix_of_findOpening? {cs before : List Char} {trim : Bool}
    (h : findOpening? controls cs = some (before, trim)) : before <+: cs := by
  induction cs generalizing before trim with
  | nil => cases h
  | cons c cs ih =>
    unfold findOpening? at h
    split at h
    · obtain ⟨rfl, -⟩ := Prod.mk.inj (Option.some.inj h)
      exact List.nil_prefix
    · obtain ⟨⟨before, trim⟩, hlater, heq⟩ := Option.map_eq_some_iff.mp h
      obtain ⟨rfl, -⟩ := Prod.mk.inj heq
      exact List.cons_prefix_cons.mpr ⟨rfl, ih hlater⟩

/-- Where no delimiter opens there is text before the next opening delimiter. -/
theorem ne_nil_of_findOpening? {cs before : List Char} {trim : Bool}
    (hopen : controls.openAt? cs = none) (h : findOpening? controls cs = some (before, trim)) :
    before ≠ [] := by
  cases cs with
  | nil => cases h
  | cons c cs =>
    rw [findOpening?, hopen] at h
    obtain ⟨found, -, heq⟩ := Option.map_eq_some_iff.mp h
    exact (Prod.mk.inj heq).1 ▸ List.cons_ne_nil _ _

/-- Outside of delimiters a step removes characters where no delimiter opens. -/
theorem proceeds_literal (hmode : s.mode = .text) (hopen : controls.openAt? s.rest = none)
    (hne : s.rest ≠ []) : Proceeds controls s.cursor (s.step controls) := by
  -- the white space that is passed, and the literal text behind it
  obtain ⟨blanks, hblanks⟩ : ∃ blanks,
      (if s.trimNext then (s.rest.takeWhile Text.isBlank).length else 0) = blanks := ⟨_, rfl⟩
  obtain ⟨before, trim, hfound, hprefix, hpos⟩ : ∃ before trim,
      (findOpening? controls (s.rest.drop blanks)).getD (s.rest.drop blanks, false) =
        (before, trim) ∧ before <+: s.rest.drop blanks ∧ 0 < blanks + before.length := by
    cases hfind : findOpening? controls (s.rest.drop blanks) with
    | none =>
      refine ⟨_, _, rfl, List.prefix_refl _, ?_⟩
      have hlength := List.length_pos_iff.mpr hne
      rw [List.length_drop]
      omega
    | some found =>
      refine ⟨_, _, rfl, prefix_of_findOpening? hfind, ?_⟩
      by_cases hzero : blanks = 0
      · rw [hzero, List.drop_zero] at hfind
        have hlength := List.length_pos_iff.mpr (ne_nil_of_findOpening? hopen hfind)
        omega
      · omega
  obtain ⟨lead, hlead, hfront⟩ : ∃ lead,
      (if trim then Text.trimEnd before else before) = lead ∧ lead <+: before := by
    refine ⟨_, rfl, ?_⟩
    split
    · exact Text.trimEnd_prefix before
    · exact List.prefix_refl _
  obtain ⟨next, hcursor, -, -, hstep⟩ := step_at_literal hmode hopen hblanks hfound hlead
  rw [hstep]
  split
  · exact .skip hpos hcursor
  · next hsome =>
    refine .token ⟨Nat.le_add_right _ _, rfl, ?_⟩ (Nat.add_le_add_left hfront.length_le _) hpos
      hcursor
    have htext : (s.cursor.rest.drop blanks).take lead.length = lead :=
      (List.prefix_iff_eq_take.mp (hfront.trans hprefix)).symm
    rw [Nat.add_sub_cancel_left, htext]
    exact .literal (by simpa using hsome)

/-- Every step removes characters. -/
theorem proceeds_step (h : ∀ m, controls.opening m ≠ [] ∧ controls.closing m ≠ [])
    (hne : s.rest ≠ []) : Proceeds controls s.cursor (s.step controls) := by
  cases hmode : s.mode with
  | output => exact proceeds_inside (m := .output) Marker.noConfusion (h _).2 hmode
  | tag => exact proceeds_inside (m := .tag) Marker.noConfusion (h _).2 hmode
  | text =>
    cases hopen : controls.openAt? s.rest with
    | some found => exact proceeds_opening (h found.1).1 hmode hopen
    | none => exact proceeds_literal hmode hopen hne

end Steps

/-- What asking for the next token leads to. -/
inductive Answer where
  | token (token : Token) (span : Span) (next : State)
  /-- The text is used up, or a fault is met. -/
  | finished (error? : Option Error)

/-- Ask for the next token: take steps, at most so many, until one of them finds a token. -/
def nextToken? (controls : Controls) : Nat → State → Option Answer
  | 0, s => if s.rest.isEmpty then some (.finished (s.unclosed controls)) else none
  | steps + 1, s =>
    if s.rest.isEmpty then some (.finished (s.unclosed controls))
    else
      match s.step controls with
      | .skip next => nextToken? controls steps next
      | .token token span next => some (.token token span next)
      | .fault error => some (.finished (some error))

/-- Ask for one token after the other, at most so many times, until there is none or a fault. -/
def requests? (controls : Controls) (steps : Nat) : Nat → State → Option Lexed
  | 0, _ => none
  | count + 1, s =>
    match nextToken? controls steps s with
    | none => none
    | some (.finished error?) => some { error? := error? }
    | some (.token token span next) =>
      (requests? controls steps count next).map fun lexed =>
        { lexed with tokens := (token, span) :: lexed.tokens }

section Runs

/-- Where the text is used up, no step is taken. -/
theorem run_of_nil {s : State} (hnil : s.rest = []) (fuel : Nat) :
    run controls fuel s = { error? := s.unclosed controls } := by
  cases fuel <;> simp [run, hnil]

/-- Where the text is used up, asking for a token needs no step. -/
theorem nextToken?_of_nil {s : State} (hnil : s.rest = []) (steps : Nat) :
    nextToken? controls steps s = some (.finished (s.unclosed controls)) := by
  cases steps <;> simp [nextToken?, hnil]

/-- Behind a step there is less text than before it. -/
theorem Proceeds.length_lt {s next : State} {step : Step} (h : Proceeds controls s.cursor step)
    (hne : s.rest ≠ []) (hnext : step.next? = some next) : next.rest.length < s.rest.length := by
  have hshorter {n : Nat} (hn : 0 < n) (hcursor : next.cursor = s.cursor.skip n) :
      next.rest.length < s.rest.length := by
    change next.cursor.rest.length < _
    rw [hcursor]
    exact length_drop_lt hne hn
  cases h with
  | skip hn hcursor | token _ _ hn hcursor =>
    obtain rfl := Option.some.inj hnext
    exact hshorter hn hcursor
  | fault => cases hnext

variable (h : ∀ m, controls.opening m ≠ [] ∧ controls.closing m ≠ [])

include h

/-- With a step for each character, asking for a token has an answer, and a run begins with it. -/
theorem nextToken?_run {steps fuel : Nat} {s : State} (hsteps : s.rest.length ≤ steps)
    (hfuel : s.rest.length ≤ fuel) :
    (∃ error?, nextToken? controls steps s = some (.finished error?) ∧
      run controls fuel s = { error? := error? }) ∨
    ∃ t span next left, nextToken? controls steps s = some (.token t span next) ∧
      next.rest.length < s.rest.length ∧ next.rest.length ≤ left ∧
      run controls fuel s =
        { run controls left next with tokens := (t, span) :: (run controls left next).tokens } := by
  induction steps generalizing s fuel with
  | zero =>
    have hnil : s.rest = [] := List.eq_nil_of_length_eq_zero (Nat.le_zero.mp hsteps)
    exact .inl ⟨_, nextToken?_of_nil hnil 0, run_of_nil hnil fuel⟩
  | succ steps ih =>
    by_cases hnil : s.rest = []
    · exact .inl ⟨_, nextToken?_of_nil hnil _, run_of_nil hnil fuel⟩
    · obtain ⟨left, rfl⟩ : ∃ i, fuel = i + 1 :=
        ⟨fuel - 1, by have := List.length_pos_iff.mpr hnil; omega⟩
      have hsome : s.rest.isEmpty = false := List.isEmpty_eq_false_iff.mpr hnil
      have hproceeds := proceeds_step h hnil
      rw [nextToken?, run, hsome, if_neg Bool.false_ne_true, if_neg Bool.false_ne_true]
      cases hstep : s.step controls with
      | fault error => exact .inl ⟨_, rfl, rfl⟩
      | skip next =>
        have hshorter := hproceeds.length_lt hnil (by rw [hstep]; rfl)
        rcases ih (show next.rest.length ≤ steps by omega)
          (show next.rest.length ≤ left by omega) with hfinished | htoken
        · exact .inl hfinished
        · obtain ⟨t, span, after, left', hnext, hafter, hleft, hrun⟩ := htoken
          exact .inr ⟨t, span, after, left', hnext, hafter.trans hshorter, hleft, hrun⟩
      | token t span next =>
        have hshorter := hproceeds.length_lt hnil (by rw [hstep]; rfl)
        exact .inr ⟨t, span, next, left, rfl, hshorter, by omega, rfl⟩

/-- Asking for one token after the other, one time more than there are characters, ends, and finds
the tokens of a run. -/
theorem requests?_eq_run {steps count fuel : Nat} {s : State} (hsteps : s.rest.length ≤ steps)
    (hcount : s.rest.length < count) (hfuel : s.rest.length ≤ fuel) :
    requests? controls steps count s = some (run controls fuel s) := by
  induction count generalizing s fuel with
  | zero => exact absurd hcount (Nat.not_lt_zero _)
  | succ count ih =>
    rw [requests?]
    rcases nextToken?_run h hsteps hfuel with ⟨error?, hnext, hrun⟩ |
      ⟨t, span, next, left, hnext, hshorter, hleft, hrun⟩
    · rw [hnext, hrun]
    · rw [hnext, hrun]
      dsimp only
      rw [ih (by omega) (by omega) hleft]
      rfl

/-- The tokens of a run are found at the places that their spans name, one behind the other. -/
theorem run_tokens_found (fuel : Nat) (s : State) :
    (∀ t span, (t, span) ∈ (run controls fuel s).tokens →
      ∃ start stop, FoundAt controls s.cursor t span start stop) ∧
    (run controls fuel s).tokens.Pairwise
      fun earlier later => earlier.2.stop.offset ≤ later.2.start.offset := by
  have hnone (s : State) (t : Token) (span : Span) (hmem : (t, span) ∈ ([] : List _)) :
      ∃ start stop, FoundAt controls s.cursor t span start stop := absurd hmem List.not_mem_nil
  -- what is found behind the first step is found as many characters further on as it removes
  induction fuel generalizing s with
  | zero => exact ⟨hnone s, .nil⟩
  | succ fuel ih =>
    by_cases hnil : s.rest = []
    · rw [run_of_nil hnil]
      exact ⟨hnone s, .nil⟩
    · have hsome : s.rest.isEmpty = false := List.isEmpty_eq_false_iff.mpr hnil
      have hproceeds := proceeds_step h hnil
      rw [run, hsome, if_neg Bool.false_ne_true]
      cases hstep : s.step controls with
      | fault error => exact ⟨hnone s, .nil⟩
      | skip next =>
        rw [hstep] at hproceeds
        obtain ⟨-, hcursor⟩ := hproceeds
        obtain ⟨hfound, hordered⟩ := ih next
        rw [hcursor] at hfound
        refine ⟨fun t span hmem => ?_, hordered⟩
        obtain ⟨start, stop, hat⟩ := hfound t span hmem
        exact ⟨_, _, hat.of_skip⟩
      | token t span next =>
        rw [hstep] at hproceeds
        cases hproceeds with
        | @token _ _ start stop n _ hat hstop hn hcursor =>
        obtain ⟨hfound, hordered⟩ := ih next
        rw [hcursor] at hfound
        refine ⟨fun t' span' hmem => ?_, List.pairwise_cons.mpr ⟨fun later hmem => ?_, hordered⟩⟩
        · rcases List.mem_cons.mp hmem with heq | hmem
          · obtain ⟨rfl, rfl⟩ := Prod.mk.inj heq
            exact ⟨_, _, hat⟩
          · obtain ⟨start, stop, hat'⟩ := hfound t' span' hmem
            exact ⟨_, _, hat'.of_skip⟩
        · obtain ⟨start', stop', hat'⟩ := hfound later.1 later.2 hmem
          calc span.stop.offset = (s.cursor.skip stop).at_.offset := by rw [hat.span]
            _ ≤ (s.cursor.skip n).at_.offset := s.cursor.offset_skip_le hstop
            _ ≤ later.2.start.offset := hat'.offset_le

end Runs

/-- The state in front of a source. -/
def State.atStart (source : String) : State := { cursor := { rest := source.toList } }

/-- Whatever delimiters are accepted, asking for one token after the other, one time more than the
source has characters and with as many steps each time as it has characters, comes to an end and
finds what the lexer finds. The spans of the tokens follow one another inside the source; each
encloses the text that stands for the token, and its line is one more than the line breaks before
it. -/
theorem lex_progresses (h : controls.check = .ok ()) (source : String) :
    (∀ steps count, source.length ≤ steps → source.length < count →
      requests? controls steps count (.atStart source) = some (lex controls source)) ∧
    ((lex controls source).tokens.Pairwise
      fun earlier later => earlier.2.stop.offset ≤ later.2.start.offset) ∧
    ∀ t span, (t, span) ∈ (lex controls source).tokens →
      ∃ before text behind, source.toList = before ++ text ++ behind ∧
        span.start.offset = Text.byteLength before ∧
        span.stop.offset = Text.byteLength (before ++ text) ∧
        span.stop.offset ≤ Text.byteLength source.toList ∧
        span.start.line = 1 + before.count '\n' ∧
        StandsFor controls before text behind t := by
  have hdelimiters := Controls.nonempty_of_check h
  have hlength : (State.atStart source).rest.length = source.length := String.length_toList
  obtain ⟨hfound, hordered⟩ :=
    run_tokens_found hdelimiters source.toList.length (.atStart source)
  refine ⟨fun steps count hsteps hcount => ?_, hordered, fun t span hmem => ?_⟩
  · exact requests?_eq_run hdelimiters (hlength.trans_le hsteps) (hlength.trans_lt hcount)
      (Nat.le_refl _)
  · obtain ⟨start, stop, hle, rfl, htext⟩ := hfound t span hmem
    obtain ⟨n, rfl⟩ := Nat.exists_eq_add_of_le hle
    rw [Nat.add_sub_cancel_left] at htext
    have hsource : source.toList = source.toList.take start ++ (source.toList.drop start).take n ++
        source.toList.drop (start + n) := by
      rw [← List.take_add, List.take_append_drop]
    have hstop : (((State.atStart source).cursor.skip (start + n)).at_).offset =
        Text.byteLength (source.toList.take start ++ (source.toList.drop start).take n) := by
      rw [← List.take_add]
      exact (Position.offset_advance _ _).trans (Nat.zero_add _)
    refine ⟨_, _, _, hsource, ?_, hstop, ?_, ?_, htext⟩
    · exact (Position.offset_advance _ _).trans (Nat.zero_add _)
    · have hwhole := (congrArg Text.byteLength hsource).trans (Text.byteLength_append _ _)
      rw [hstop, hwhole]
      exact Nat.le_add_right _ _
    · exact Position.line_advance _ _

/-- A raw block between dropped white space, and a string over two lines. -/
theorem lex_progresses_raw :
    let source := "é \x7b%- raw %\x7d\n x \x7b% endraw -%\x7d \n\x7b\x7b 'a\nb'\n\x7d\x7d"
    ({} : Controls).check = .ok () ∧ source.length ≤ 42 ∧ source.length < 43 ∧
      requests? {} 42 43 (.atStart source) = some (lex {} source) ∧
      (lex {} source).tokens.map (fun (_, span) =>
        (span.start.line, span.start.offset, span.stop.offset)) =
          [(1, 0, 2), (1, 13, 17), (3, 32, 34), (3, 35, 40), (5, 41, 43)] :=
  ⟨rfl, by decide, by decide, (lex_progresses rfl _).1 42 43 (by decide) (by decide),
    by decide +kernel⟩

end Lexer

end Templating
