import Templating.Proofs.Template.Pieces
import Templating.Proofs.Template.TokenText

/-!
# Dividing a source

A source in which the lexer finds no fault is divided into pieces. What is read between delimiters
depends on the text only, so each step of the lexer is a piece or a part of one.
-/

namespace Templating

namespace Lexer

variable {controls : Controls}

/-- The state behind a step, unless the step meets a fault. -/
def Step.next? : Step → Option State
  | .skip next => some next
  | .token _ _ next => some next
  | .fault _ => none

/-- Where no fault is met, there is none in the first step, and none is met behind it. -/
theorem exists_next {fuel : Nat} {s : State} (h : (run controls fuel s).error? = none)
    (hne : s.rest ≠ []) (hfuel : s.rest.length ≤ fuel) :
    ∃ next, (s.step controls).next? = some next ∧
      (run controls (fuel - 1) next).error? = none := by
  have hpos := List.length_pos_iff.mpr hne
  obtain ⟨i, rfl⟩ : ∃ i, fuel = i + 1 := ⟨fuel - 1, by omega⟩
  rw [run, List.isEmpty_eq_false_iff.mpr hne, if_neg Bool.false_ne_true] at h
  cases hstep : s.step controls with
  | skip next | token t span next =>
    rw [hstep] at h
    exact ⟨next, rfl, h⟩
  | fault error => simp [hstep] at h

/-- Where no fault is met, the text does not end between delimiters. -/
theorem mode_of_no_fault {fuel : Nat} {s : State} (h : (run controls fuel s).error? = none)
    (hrest : s.rest = []) : s.mode = .text := by
  cases hmode : s.mode with
  | text => rfl
  | output | tag => cases fuel <;> simp [run, hrest, State.unclosed, hmode] at h

/-- The step that takes what is read. -/
def State.read (s : State) : Reading → Step
  | .ok (t, n) => s.take t n
  | .error error => .fault (error s.line)

/-- A string literal is read behind its opening quote. -/
theorem string_eq_read {s : State} {quote : Char} {cs : List Char} (hrest : s.rest = quote :: cs) :
    s.string quote = s.read (stringAt quote cs) := by
  rw [State.string, stringAt, hrest, List.drop_succ_cons, List.drop_zero]
  cases stringBody? quote cs with
  | none => rfl
  | some body =>
    dsimp only
    cases Text.unescape body <;> rfl

/-- A number is read at the front. -/
theorem number_eq_read (s : State) : s.number = s.read (numberAt s.rest) := by
  rw [State.number, numberAt]
  obtain ⟨text, part⟩ := numberText .whole s.rest
  dsimp only
  cases numberToken? text part <;> rfl

/-- A word is read at the front. -/
theorem word_eq_read (s : State) : s.word = s.read (wordAt s.rest) := by
  rw [State.word, wordAt]
  split <;> rfl

/-- Between delimiters, a token is read unless white space or the closing delimiter is in front. -/
theorem inside_eq_read {s : State} {m : Marker}
    (hfront : s.rest.takeWhile Text.isAsciiBlank = [])
    (hopen : closingAt? controls m s.rest = none) :
    s.inside controls m m.ending = s.read (tokenAt s.rest) := by
  obtain ⟨hminus, hplain⟩ : Text.stripStart? ('-' :: controls.closing m) s.rest = none ∧
      Text.stripStart? (controls.closing m) s.rest = none := by
    unfold closingAt? at hopen
    split at hopen
    · cases hopen
    · next hminus => exact ⟨hminus, Option.map_eq_none_iff.mp hopen⟩
  have hblank : (s.rest.takeWhile Text.isAsciiBlank).length = 0 := by
    rw [hfront, List.length_nil]
  rw [State.inside]
  dsimp only
  rw [hblank, if_neg (Nat.lt_irrefl 0), Text.startsWith, hminus, if_neg (by simp),
    Text.startsWith, hplain, if_neg (by simp)]
  cases hsymbol : punctuation? s.rest with
  | some found =>
    rw [tokenAt.eq_def, hsymbol]
    rfl
  | none =>
    rw [tokenAt.eq_def, hsymbol]
    dsimp only
    split
    · next hrest => exact hrest ▸ string_eq_read hrest
    · next hrest => exact hrest ▸ string_eq_read hrest
    · next hsingle hdouble hrest =>
      rw [hrest]
      dsimp only
      rw [if_neg (not_or.mpr ⟨hsingle, hdouble⟩), ← hrest]
      split
      · exact number_eq_read s
      · exact word_eq_read s
    · next hrest =>
      rw [word_eq_read s, hrest]

/-- The text of the state is divided into pieces, behind what is left between delimiters. -/
def Divided (controls : Controls) (s : State) : Prop :=
  (s.mode = .text → ∃ ps, Divides controls s.rest ps) ∧
    ∀ m, m ≠ .comment → s.mode = modeOf m →
      ∃ ts after rest ps, Inside controls m s.rest ts after rest ∧ Divides controls rest ps

/-- If the text behind the next step is divided, the literal text in front is. -/
theorem divided_text (hsolid : Solid controls) {s : State} (hne : s.rest ≠ [])
    (hmode : s.mode = .text) {next : State} (hnext : (s.step controls).next? = some next)
    (ih : next.rest.length < s.rest.length → Divided controls next) :
    ∃ ps, Divides controls s.rest ps := by
  cases hopen : controls.openAt? s.rest with
  | none =>
    obtain ⟨before, rest, hs, hsilent, hopening⟩ := exists_silent controls s.rest
    have hbefore : before ≠ [] := by
      rintro rfl
      rw [List.nil_append] at hs
      rcases hopening with rfl | hopening
      · exact hne hs
      · rw [← hs, hopen] at hopening
        cases hopening
    obtain ⟨-, next', -, hnext', hmode', -, hstep⟩ :=
      step_literal hsolid hmode hs hbefore hsilent hopening rfl rfl
    obtain rfl : next' = next := by
      rw [hstep] at hnext
      split at hnext <;> exact Option.some.inj hnext
    have hshorter : next'.rest.length < s.rest.length := by
      rw [hnext', hs, List.length_append]
      exact Nat.lt_add_of_pos_left (List.length_pos_iff.mpr hbefore)
    obtain ⟨ps, hps⟩ := (ih hshorter).1 hmode'
    rw [hs]
    exact ⟨_, .text hbefore hsilent hopening (hnext' ▸ hps)⟩
  | some found =>
    obtain ⟨m, inner⟩ := found
    have hlater {rest : List Char} (hrest : next.rest = rest) (hsuffix : rest <:+ inner) :
        Divided controls next :=
      ih (hrest ▸ hsolid.length_lt_of_suffix hopen hsuffix)
    have hregion (hm : m = .output ∨
        m = .tag ∧ simpleTag? "raw".toList (controls.closing .tag) inner = none) :
        ∃ ps, Divides controls s.rest ps := by
      obtain ⟨next', hstep, -, hrest, hmode', -⟩ := step_region hmode hopen hm rfl
      rw [hstep] at hnext
      obtain rfl := Option.some.inj hnext
      obtain ⟨ts, after, rest, ps, hinside, hps⟩ :=
        (hlater hrest (List.drop_suffix _ _)).2 m (ne_comment_of hm) hmode'
      exact ⟨_, .region hopen hm (hrest ▸ hinside) hps⟩
    cases m with
    | output => exact hregion (.inl rfl)
    | comment =>
      cases hsplit : Text.splitAt? (controls.closing .comment) inner with
      | none =>
        rw [step_enter hmode hopen] at hnext
        simp [State.enter, hsplit, State.failAt, Step.next?] at hnext
      | some parts =>
        obtain ⟨next', hstep, -, hrest, hmode', -⟩ := step_comment hmode hopen hsplit
        rw [hstep] at hnext
        obtain rfl := Option.some.inj hnext
        obtain ⟨ps, hps⟩ := (hlater hrest ⟨_, (Text.eq_of_splitAt? hsplit).symm⟩).1 hmode'
        exact ⟨_, .comment hopen hsplit (hrest ▸ hps)⟩
    | tag =>
      cases hstart : simpleTag? "raw".toList (controls.closing .tag) inner with
      | none => exact hregion (.inr ⟨rfl, hstart⟩)
      | some start =>
        obtain ⟨tagLength, startAfter⟩ := start
        cases hend : findRawEnd? (controls.opening .tag) (controls.closing .tag) 0 0
            (inner.drop tagLength) with
        | none =>
          obtain ⟨behind, hstep, -, hbehind, -⟩ := step_eq_raw hmode hopen hstart
          rw [hstep, State.raw, hbehind, hend] at hnext
          cases hnext
        | some stop =>
          obtain ⟨length, endLength, before, after⟩ := stop
          obtain ⟨next', hstep, -, hrest, hmode', -⟩ := step_raw hmode hopen hstart hend rfl
          rw [hstep] at hnext
          obtain rfl := Option.some.inj hnext
          obtain ⟨ps, hps⟩ := (hlater hrest (drop_drop_suffix _ _ _)).1 hmode'
          exact ⟨_, .raw hopen hstart hend (hrest ▸ hps)⟩

/-- If the text behind the next step is divided, the text in front is, between delimiters. -/
theorem divided_inside (hsolid : Solid controls) {s : State} (hne : s.rest ≠ []) {m : Marker}
    (hm : m ≠ .comment) (hmode : s.mode = modeOf m) {next : State}
    (hnext : (s.step controls).next? = some next)
    (ih : next.rest.length < s.rest.length → Divided controls next) :
    ∃ ts after rest ps, Inside controls m s.rest ts after rest ∧ Divides controls rest ps := by
  by_cases hfront : s.rest.takeWhile Text.isAsciiBlank = []
  · cases hclose : closingAt? controls m s.rest with
    | some found =>
      obtain ⟨after, rest⟩ := found
      obtain ⟨next', hstep, -, hrest, hmode', -⟩ := step_close hm hmode rfl hfront hclose rfl
      rw [hstep] at hnext
      obtain rfl := Option.some.inj hnext
      have hshorter := hsolid.length_lt_of_closingAt? hclose
      obtain ⟨ps, hps⟩ := (ih (hrest ▸ hshorter)).1 hmode'
      exact ⟨_, _, _, ps, .close hfront hclose, hrest ▸ hps⟩
    | none =>
      cases hread : tokenAt s.rest with
      | ok found =>
        obtain ⟨t, n⟩ := found
        have hn := (readsAt_of_tokenAt hread).pos
        have htake (s' : State) (hs' : s'.rest = s.rest) :
            s'.inside controls m m.ending = s'.take t n := by
          rw [inside_eq_read (hs' ▸ hfront) (hs' ▸ hclose), hs', hread]
          rfl
        obtain ⟨next', hstep, -, hrest, hmode', -⟩ := step_token hm hmode rfl htake
        rw [hstep] at hnext
        obtain rfl := Option.some.inj hnext
        obtain ⟨ts, after, rest, ps, hinside, hps⟩ :=
          (ih (hrest ▸ length_drop_lt hne hn)).2 m hm hmode'
        exact ⟨_, _, _, ps, .token hne hn htake (hrest ▸ hinside), hps⟩
      | error error =>
        rw [step_inside hm hmode, inside_eq_read hfront hclose, hread] at hnext
        cases hnext
  · obtain ⟨next', hstep, -, hrest, hmode', -⟩ := step_blank hm hmode rfl hfront
    rw [hstep] at hnext
    obtain rfl := Option.some.inj hnext
    obtain ⟨ts, after, rest, ps, hinside, hps⟩ :=
      (ih (hrest ▸ length_dropWhile_lt hfront)).2 m hm hmode'
    exact ⟨_, _, _, ps, .blank hfront (hrest ▸ hinside), hps⟩

/-- Where no fault is met the text is divided. -/
theorem divided_of_run (hsolid : Solid controls) (fuel : Nat) {s : State}
    (hfuel : s.rest.length ≤ fuel) (h : (run controls fuel s).error? = none) :
    Divided controls s := by
  induction fuel using Nat.strongRecOn generalizing s with
  | ind fuel ih =>
    by_cases hne : s.rest = []
    · have hmode := mode_of_no_fault h hne
      refine ⟨fun _ => ⟨[], hne ▸ .nil⟩, fun m hm hm' => ?_⟩
      rw [hmode] at hm'
      cases m <;> cases hm'
    · obtain ⟨next, hnext, herror⟩ := exists_next h hne hfuel
      have hpos := List.length_pos_iff.mpr hne
      have hlater (hshorter : next.rest.length < s.rest.length) : Divided controls next :=
        ih (fuel - 1) (by omega) (by omega) herror
      exact ⟨fun hmode => divided_text hsolid hne hmode hnext hlater,
        fun m hm hmode => divided_inside hsolid hne hm hmode hnext hlater⟩

/-- A source without a fault is divided into pieces. -/
theorem exists_divides (hsolid : Solid controls) {source : String}
    (h : (lex controls source).error? = none) : ∃ ps, Divides controls source.toList ps :=
  (divided_of_run hsolid (s := { cursor := { rest := source.toList } }) _ (Nat.le_refl _) h).1 rfl

end Lexer

end Templating
