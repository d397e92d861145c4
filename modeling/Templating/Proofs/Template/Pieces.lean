import Templating.Proofs.Template.Lexing

/-!
# Pieces of a source

Delimiters divide a source into pieces: literal text, regions between delimiters and raw blocks. The
division takes no notice of minus signs but notes them, so it can be said apart from it what the
lexer does about white space. A source that is divided has no fault, and its tokens are those of the
pieces.
-/

namespace Templating

/-- Dropping white space at the end leaves the front of a text. -/
theorem Text.trimEnd_prefix (cs : List Char) : Text.trimEnd cs <+: cs := by
  rw [← List.reverse_suffix, Text.trimEnd, List.reverse_reverse]
  exact List.dropWhile_suffix _

/-- Moving twice is moving over all characters at once. -/
theorem Lexer.Cursor.skip_skip (c : Cursor) (i j : Nat) :
    (c.skip i).skip j = c.skip (i + j) := by
  simp only [skip, List.drop_drop, ← Position.advance_append, List.take_add]

/-- The token an output point or a tag begins with. -/
def Marker.starting : Marker → Token
  | .output => .outputStart
  | _ => .tagStart

/-- The token an output point or a tag ends with. -/
def Marker.ending : Marker → Token
  | .output => .outputEnd
  | _ => .tagEnd

namespace Lexer

/-- The mode that the inside of an output point or a tag is read in. -/
def modeOf : Marker → Mode
  | .output => .output
  | _ => .tag

/-- The minus signs of an opening and a closing delimiter. -/
structure Signs where
  before : Bool
  after : Bool
  deriving Repr, DecidableEq

/-- A piece of a source. -/
inductive Piece where
  | text (chars : List Char)
  /-- A comment, which has no tokens, an output point or a tag. -/
  | region (tokens : List Token) (signs : Signs)
  /-- A raw block with the minus signs of its two tags. -/
  | raw (content : List Char) (start stop : Signs)

/-- There is a minus sign in the opening delimiter of the piece. -/
def Piece.minusBefore : Piece → Bool
  | .text _ => false
  | .region _ signs => signs.before
  | .raw _ start _ => start.before

/-- There is a minus sign in the closing delimiter of the piece. -/
def Piece.minusAfter : Piece → Bool
  | .text _ => false
  | .region _ signs => signs.after
  | .raw _ _ stop => stop.after

/-- The text between two delimiters without the white space that their minus signs drop. -/
def kept (after before : Bool) (chars : List Char) : List Char :=
  let chars := if after then Text.trimStart chars else chars
  if before then Text.trimEnd chars else chars

/-- Literal text becomes a token unless it is empty. -/
def dataTokens (chars : List Char) : List Token :=
  if chars.isEmpty then [] else [.data (String.ofList chars)]

/-- There is a minus sign in the opening delimiter that comes next. -/
def minusAhead (pieces : List Piece) : Bool := pieces.head?.any Piece.minusBefore

/-- The tokens of pieces. `after` says whether white space is to be dropped at the front. Behind a
region or a raw block it is if there is a minus sign; with `carries` it also is if it was before. -/
def tokensOf (carries : Bool) : Bool → List Piece → List Token
  | _, [] => []
  | after, .text chars :: rest =>
    dataTokens (kept after (minusAhead rest) chars) ++ tokensOf carries false rest
  | after, .region tokens signs :: rest =>
    tokens ++ tokensOf carries (carries && after || signs.after) rest
  | after, .raw content start stop :: rest =>
    .data (String.ofList (kept start.after stop.before content)) ::
      tokensOf carries (carries && after || stop.after) rest

section

variable (controls : Controls)

/-- No opening delimiter stands anywhere in the text in front of the rest. -/
def Silent (before rest : List Char) : Prop :=
  ∀ tail, tail ≠ [] → tail <:+ before → controls.openAt? (tail ++ rest) = none

/-- The text is used up or goes on with an opening delimiter. -/
def AtOpening (cs : List Char) : Prop := cs = [] ∨ (controls.openAt? cs).isSome

/-- The closing delimiter at the front: whether there is a minus sign in it, and the text behind. -/
def closingAt? (m : Marker) (cs : List Char) : Option (Bool × List Char) :=
  match Text.stripStart? ('-' :: controls.closing m) cs with
  | some rest => some (true, rest)
  | none => (Text.stripStart? (controls.closing m) cs).map (false, ·)

/-- What is read between delimiters: the tokens up to and with the closing delimiter, whether there
is a minus sign in it, and the text behind it. -/
inductive Inside (m : Marker) : List Char → List Token → Bool → List Char → Prop
  | blank {cs rest : List Char} {ts : List Token} {after : Bool} :
    cs.takeWhile Text.isAsciiBlank ≠ [] →
    Inside m (cs.dropWhile Text.isAsciiBlank) ts after rest → Inside m cs ts after rest
  | close {cs rest : List Char} {after : Bool} : cs.takeWhile Text.isAsciiBlank = [] →
    closingAt? controls m cs = some (after, rest) → Inside m cs [m.ending] after rest
  | token {cs rest : List Char} {t : Token} {n : Nat} {ts : List Token} {after : Bool} :
    cs ≠ [] → 0 < n → (∀ s : State, s.rest = cs → s.inside controls m m.ending = s.take t n) →
    Inside m (cs.drop n) ts after rest → Inside m cs (t :: ts) after rest

/-- The source is divided into the pieces. -/
inductive Divides : List Char → List Piece → Prop
  | nil : Divides [] []
  | text {before rest : List Char} {ps : List Piece} : before ≠ [] →
    Silent controls before rest → AtOpening controls rest → Divides rest ps →
      Divides (before ++ rest) (.text before :: ps)
  | comment {cs inner body rest : List Char} {ps : List Piece} :
    controls.openAt? cs = some (.comment, inner) →
    Text.splitAt? (controls.closing .comment) inner = some (body, rest) → Divides rest ps →
      Divides cs (.region [] ⟨minusLength inner == 1, body.getLast? == some '-'⟩ :: ps)
  | region {m : Marker} {cs inner rest : List Char} {ts : List Token} {after : Bool}
    {ps : List Piece} : controls.openAt? cs = some (m, inner) →
    m = .output ∨ m = .tag ∧ simpleTag? "raw".toList (controls.closing .tag) inner = none →
    Inside controls m (inner.drop (minusLength inner)) ts after rest → Divides rest ps →
      Divides cs (.region (m.starting :: ts) ⟨minusLength inner == 1, after⟩ :: ps)
  | raw {cs inner : List Char} {tagLength length endLength : Nat}
    {startAfter stopBefore stopAfter : Bool} {ps : List Piece} :
    controls.openAt? cs = some (.tag, inner) →
    simpleTag? "raw".toList (controls.closing .tag) inner = some (tagLength, startAfter) →
    findRawEnd? (controls.opening .tag) (controls.closing .tag) 0 0 (inner.drop tagLength) =
      some (length, endLength, stopBefore, stopAfter) →
    Divides ((inner.drop tagLength).drop (length + endLength)) ps →
      Divides cs (.raw ((inner.drop tagLength).take length) ⟨minusLength inner == 1, startAfter⟩
        ⟨stopBefore, stopAfter⟩ :: ps)

end

/-- No delimiter is empty, and none of the opening ones begins with white space. -/
structure Solid (controls : Controls) : Prop where
  opening : ∀ m, ∃ c cs, controls.opening m = c :: cs ∧ Text.isBlank c = false
  closing : ∀ m, controls.closing m ≠ []

/-- The default delimiters are solid. -/
theorem solid_default : Solid {} where
  opening m := by cases m <;> exact ⟨_, _, rfl, by decide⟩
  closing m := by cases m <;> exact List.cons_ne_nil _ _

variable {controls : Controls}

/-- The minus sign at the front of a text, if there is one. -/
theorem take_minusLength (cs : List Char) :
    cs.take (minusLength cs) = [] ∨ cs.take (minusLength cs) = ['-'] := by
  unfold minusLength
  split <;> simp

/-- An opening delimiter that is found stands in front. -/
theorem eq_append_of_openAt? {m : Marker} {cs inner : List Char}
    (h : controls.openAt? cs = some (m, inner)) : cs = controls.opening m ++ inner := by
  obtain ⟨m', _, hm'⟩ := List.exists_of_findSome?_eq_some h
  obtain ⟨rest, hstrip, heq⟩ := Option.map_eq_some_iff.mp hm'
  obtain ⟨rfl, rfl⟩ := Prod.mk.inj heq
  exact Text.stripStart?_eq_some_iff.mp hstrip

/-- No opening delimiter stands where the text is used up. -/
theorem Solid.openAt?_nil (h : Solid controls) : controls.openAt? [] = none := by
  cases hopen : controls.openAt? [] with
  | none => rfl
  | some found =>
    obtain ⟨m, inner⟩ := found
    obtain ⟨c, cs, hopening, -⟩ := h.opening m
    have heq := eq_append_of_openAt? hopen
    rw [hopening] at heq
    cases heq

/-- What goes on with an opening delimiter does not go on with white space. -/
theorem AtOpening.takeWhile_eq_nil (hsolid : Solid controls) {cs : List Char}
    (h : AtOpening controls cs) : cs.takeWhile Text.isBlank = [] := by
  rcases h with rfl | h
  · rfl
  · obtain ⟨⟨m, inner⟩, hopen⟩ := Option.isSome_iff_exists.mp h
    obtain ⟨c, more, hopening, hblank⟩ := hsolid.opening m
    rw [eq_append_of_openAt? hopen, hopening]
    exact List.takeWhile_cons_of_neg (by simp [hblank])

/-- The silent text in front of an opening delimiter is what is found before it. -/
theorem findOpening?_eq (hsolid : Solid controls) {before rest : List Char}
    (h : Silent controls before rest) (hrest : AtOpening controls rest) :
    findOpening? controls (before ++ rest) =
      (controls.openAt? rest).map fun found => (before, minusLength found.2 == 1) := by
  induction before with
  | nil =>
    cases rest with
    | nil => rw [hsolid.openAt?_nil]; rfl
    | cons c cs =>
      obtain ⟨⟨m, inner⟩, hopen⟩ := Option.isSome_iff_exists.mp (hrest.resolve_left nofun)
      simp [findOpening?, hopen]
  | cons c before ih =>
    have hhere := h (c :: before) (List.cons_ne_nil _ _) (List.suffix_refl _)
    have hlater := ih fun tail hne hsuffix => h tail hne (hsuffix.trans (List.suffix_cons _ _))
    rw [List.cons_append] at hhere ⊢
    rw [findOpening?, hhere, hlater]
    cases controls.openAt? rest <;> rfl

/-- What is left behind an opening delimiter is shorter than what was there before. -/
theorem Solid.length_lt_of_suffix (h : Solid controls) {m : Marker} {cs inner rest : List Char}
    (hopen : controls.openAt? cs = some (m, inner)) (hsuffix : rest <:+ inner) :
    rest.length < cs.length := by
  obtain ⟨c, more, hopening, -⟩ := h.opening m
  have hinner : inner.length < cs.length := by
    rw [eq_append_of_openAt? hopen, hopening, List.length_append]
    exact Nat.lt_add_of_pos_left (Nat.succ_pos _)
  exact hsuffix.length_le.trans_lt hinner

/-- A closing delimiter that is found stands in front. -/
theorem eq_append_of_closingAt? {m : Marker} {cs rest : List Char} {after : Bool}
    (h : closingAt? controls m cs = some (after, rest)) :
    cs = (if after then ['-'] else []) ++ controls.closing m ++ rest := by
  unfold closingAt? at h
  split at h
  · next hstrip =>
    obtain ⟨rfl, rfl⟩ := Prod.mk.inj (Option.some.inj h)
    exact Text.stripStart?_eq_some_iff.mp hstrip
  · obtain ⟨rest, hstrip, heq⟩ := Option.map_eq_some_iff.mp h
    obtain ⟨rfl, rfl⟩ := Prod.mk.inj heq
    exact Text.stripStart?_eq_some_iff.mp hstrip

/-- What is left behind a closing delimiter is shorter than what was there before. -/
theorem Solid.length_lt_of_closingAt? (h : Solid controls) {m : Marker} {cs rest : List Char}
    {after : Bool} (hclose : closingAt? controls m cs = some (after, rest)) :
    rest.length < cs.length := by
  have hpos := List.length_pos_iff.mpr (h.closing m)
  rw [eq_append_of_closingAt? hclose, List.length_append, List.length_append]
  omega

/-- The inside of a comment is not split into tokens. -/
theorem ne_comment_of {m : Marker} {p : Prop} (h : m = .output ∨ m = .tag ∧ p) :
    m ≠ .comment := by
  rcases h with rfl | ⟨rfl, -⟩ <;> exact Marker.noConfusion

/-- Every text has silent text in front, up to an opening delimiter or to its end. -/
theorem exists_silent (controls : Controls) (cs : List Char) :
    ∃ before rest, cs = before ++ rest ∧ Silent controls before rest ∧ AtOpening controls rest := by
  induction cs with
  | nil => exact ⟨[], [], rfl, fun tail hne h => absurd (List.suffix_nil.mp h) hne, .inl rfl⟩
  | cons c cs ih =>
    cases hopen : controls.openAt? (c :: cs) with
    | some found =>
      exact ⟨[], c :: cs, rfl, fun tail hne h => absurd (List.suffix_nil.mp h) hne,
        .inr (by rw [hopen]; rfl)⟩
    | none =>
      obtain ⟨before, rest, rfl, hsilent, hrest⟩ := ih
      refine ⟨c :: before, rest, rfl, fun tail hne hsuffix => ?_, hrest⟩
      rcases List.suffix_cons_iff.mp hsuffix with rfl | hsuffix
      · exact hopen
      · exact hsilent tail hne hsuffix

/-- There is a minus sign in the opening delimiter in front of the text. -/
def opensWithMinus (controls : Controls) (cs : List Char) : Bool :=
  (controls.openAt? cs).any fun found => minusLength found.2 == 1

/-- The minus sign of the next opening delimiter is the one in front of the text. -/
theorem Divides.minusAhead_eq (hsolid : Solid controls) {cs : List Char} {ps : List Piece}
    (h : Divides controls cs ps) : minusAhead ps = opensWithMinus controls cs := by
  cases h with
  | nil => rw [opensWithMinus, hsolid.openAt?_nil]; rfl
  | @text before rest ps hne hsilent =>
    rw [opensWithMinus, hsilent before hne (List.suffix_refl _)]
    rfl
  | comment hopen | region hopen | raw hopen =>
    rw [opensWithMinus, hopen]
    rfl

/-- Dropping white space in front of silent text drops nothing behind it. -/
theorem takeWhile_silent (hsolid : Solid controls) {before rest : List Char}
    (hrest : AtOpening controls rest) :
    (before ++ rest).takeWhile Text.isBlank = before.takeWhile Text.isBlank := by
  induction before with
  | nil => exact hrest.takeWhile_eq_nil hsolid
  | cons c before ih => simp [List.takeWhile_cons, ih]

/-- Behind the characters of a kind at the front stands what is left when they are dropped. -/
theorem drop_length_takeWhile (p : Char → Bool) (cs rest : List Char) :
    (cs ++ rest).drop (cs.takeWhile p).length = cs.dropWhile p ++ rest := by
  calc (cs ++ rest).drop (cs.takeWhile p).length
      = (cs.takeWhile p ++ cs.dropWhile p ++ rest).drop (cs.takeWhile p).length := by
        rw [List.takeWhile_append_dropWhile]
    _ = cs.dropWhile p ++ rest := by rw [List.append_assoc, List.drop_left]

section Steps

variable {s : State}

/-- Where no delimiter opens, white space is passed if it was to be dropped, and then the text
before the next opening delimiter, which becomes a token unless nothing is kept of it. -/
theorem step_at_literal (hmode : s.mode = .text) (hopen : controls.openAt? s.rest = none)
    {blanks : Nat}
    (hblanks : (if s.trimNext then (s.rest.takeWhile Text.isBlank).length else 0) = blanks)
    {before lead : List Char} {trim : Bool}
    (hfound : (findOpening? controls (s.rest.drop blanks)).getD (s.rest.drop blanks, false) =
      (before, trim)) (hlead : (if trim then Text.trimEnd before else before) = lead) :
    ∃ next, next.cursor = s.cursor.skip (blanks + before.length) ∧ next.mode = .text ∧
      next.trimNext = false ∧ s.step controls =
        if lead.isEmpty then .skip next
        else .token (.data (String.ofList lead))
          ⟨(s.cursor.skip blanks).at_, (s.cursor.skip (blanks + lead.length)).at_⟩ next := by
  let passed : State := { s.skip blanks with trimNext := false }
  have hpassed : passed.rest = s.rest.drop blanks := rfl
  refine ⟨passed.skip before.length, Cursor.skip_skip _ _ _, hmode, rfl, ?_⟩
  rw [State.step, hmode]
  dsimp only
  rw [hopen]
  dsimp only [State.literal]
  rw [hblanks, hpassed, hfound]
  dsimp only
  rw [hlead, ← Cursor.skip_skip]
  rfl

/-- Literal text is passed up to the next opening delimiter, and becomes a token unless nothing is
kept of it. -/
theorem step_literal (hsolid : Solid controls) {before rest lead : List Char} {blanks : Nat}
    (hmode : s.mode = .text) (hrest : s.rest = before ++ rest) (hne : before ≠ [])
    (hsilent : Silent controls before rest) (hopening : AtOpening controls rest)
    (hblanks : (if s.trimNext then (before.takeWhile Text.isBlank).length else 0) = blanks)
    (hlead : kept s.trimNext (opensWithMinus controls rest) before = lead) :
    blanks + lead.length ≤ before.length ∧ ∃ next, next.cursor = s.cursor.skip before.length ∧
      next.rest = rest ∧ next.mode = .text ∧ next.trimNext = false ∧ s.step controls =
        if lead.isEmpty then .skip next
        else .token (.data (String.ofList lead))
          ⟨(s.cursor.skip blanks).at_, (s.cursor.skip (blanks + lead.length)).at_⟩ next := by
  have hclosed : controls.openAt? s.rest = none := by
    rw [hrest]
    exact hsilent before hne (List.suffix_refl _)
  -- what is left when the white space at the front was passed
  obtain ⟨after, hpassed, hafter, hlength, hdrop, hsilent'⟩ : ∃ after,
      (if s.trimNext then (s.rest.takeWhile Text.isBlank).length else 0) = blanks ∧
      (if s.trimNext then Text.trimStart before else before) = after ∧
      blanks + after.length = before.length ∧ s.rest.drop blanks = after ++ rest ∧
      Silent controls after rest := by
    subst hblanks
    cases s.trimNext with
    | false => exact ⟨before, rfl, rfl, Nat.zero_add _, hrest, hsilent⟩
    | true =>
      refine ⟨Text.trimStart before, ?_, rfl, ?_, ?_, fun tail htail hsuffix =>
        hsilent tail htail (hsuffix.trans (List.dropWhile_suffix _))⟩
      · rw [hrest, takeWhile_silent hsolid hopening]
      · rw [if_pos rfl, Text.trimStart, ← List.length_append, List.takeWhile_append_dropWhile]
      · rw [if_pos rfl, hrest, Text.trimStart]
        exact drop_length_takeWhile Text.isBlank before rest
  have hfound : (findOpening? controls (s.rest.drop blanks)).getD (s.rest.drop blanks, false) =
      (after, opensWithMinus controls rest) := by
    rw [hdrop, findOpening?_eq hsolid hsilent' hopening, opensWithMinus]
    rcases hopening with rfl | hopening
    · rw [hsolid.openAt?_nil]
      simp
    · obtain ⟨found, hopen⟩ := Option.isSome_iff_exists.mp hopening
      rw [hopen]
      rfl
  rw [kept, hafter] at hlead
  obtain ⟨next, hcursor, hmode', htrim, hstep⟩ :=
    step_at_literal hmode hclosed hpassed hfound hlead
  rw [hlength] at hcursor
  have hle : lead.length ≤ after.length := by
    rw [← hlead]
    split
    · exact (Text.trimEnd_prefix after).length_le
    · exact Nat.le_refl _
  refine ⟨by omega, next, hcursor, ?_, hmode', htrim, hstep⟩
  change next.cursor.rest = rest
  rw [hcursor]
  change s.rest.drop before.length = rest
  rw [hrest, List.drop_left]

/-- At an opening delimiter the step enters. -/
theorem step_enter {m : Marker} {inner : List Char} (hmode : s.mode = .text)
    (hopen : controls.openAt? s.rest = some (m, inner)) :
    s.step controls = s.enter controls m inner := by
  rw [State.step, hmode]
  dsimp only
  rw [hopen]

/-- A comment is passed. -/
theorem step_comment {inner body rest : List Char} (hmode : s.mode = .text)
    (hopen : controls.openAt? s.rest = some (.comment, inner))
    (hsplit : Text.splitAt? (controls.closing .comment) inner = some (body, rest)) :
    ∃ next, s.step controls = .skip next ∧
      next.cursor = s.cursor.skip ((controls.opening .comment).length + body.length +
        (controls.closing .comment).length) ∧
      next.rest = rest ∧ next.mode = .text ∧
      next.trimNext = (s.trimNext || body.getLast? == some '-') := by
  have hstep := step_enter hmode hopen
  rw [hstep]
  simp only [State.enter, hsplit]
  refine ⟨_, rfl, rfl, ?_, hmode, rfl⟩
  have hrest : s.rest = controls.opening .comment ++ body ++ controls.closing .comment ++ rest := by
    rw [eq_append_of_openAt? hopen, Text.eq_of_splitAt? hsplit]
    simp
  change s.rest.drop _ = rest
  rw [hrest, ← List.length_append, ← List.length_append, List.drop_left]

/-- An output point or a tag is entered, behind the minus sign of its opening delimiter. -/
theorem step_region {m : Marker} {inner : List Char} (hmode : s.mode = .text)
    (hopen : controls.openAt? s.rest = some (m, inner))
    (hm : m = .output ∨
      m = .tag ∧ simpleTag? "raw".toList (controls.closing .tag) inner = none) {n : Nat}
    (hn : n = (controls.opening m).length + minusLength inner) :
    ∃ next, s.step controls = .token m.starting (s.spanOf n) next ∧
      next.cursor = s.cursor.skip n ∧ next.rest = inner.drop (minusLength inner) ∧
      next.mode = modeOf m ∧ next.trimNext = s.trimNext := by
  have hstep := step_enter hmode hopen
  have hrest (n : Nat) : s.rest.drop ((controls.opening m).length + n) = inner.drop n := by
    rw [eq_append_of_openAt? hopen, List.drop_append]
    simp
  rw [hstep, hn]
  rcases hm with rfl | ⟨rfl, hraw⟩
  · exact ⟨_, rfl, rfl, hrest _, rfl, rfl⟩
  · simp only [State.enter, hraw]
    exact ⟨_, rfl, rfl, hrest _, rfl, rfl⟩

/-- At the start tag of a raw block the step reads the block, standing behind the tag. -/
theorem step_eq_raw {inner : List Char} {tagLength : Nat} {startAfter : Bool}
    (hmode : s.mode = .text) (hopen : controls.openAt? s.rest = some (.tag, inner))
    (hstart : simpleTag? "raw".toList (controls.closing .tag) inner =
      some (tagLength, startAfter)) :
    ∃ behind : State, s.step controls = behind.raw controls startAfter ∧
      behind.cursor = s.cursor.skip ((controls.opening .tag).length + tagLength) ∧
      behind.rest = inner.drop tagLength ∧ behind.mode = .text ∧ behind.trimNext = s.trimNext := by
  rw [step_enter hmode hopen]
  simp only [State.enter, hstart]
  refine ⟨_, rfl, rfl, ?_, hmode, rfl⟩
  change s.rest.drop _ = _
  rw [eq_append_of_openAt? hopen, List.drop_append]
  simp

/-- A raw block is passed, and its content becomes a token. -/
theorem step_raw {inner : List Char} {tagLength length endLength : Nat}
    {startAfter stopBefore stopAfter : Bool} (hmode : s.mode = .text)
    (hopen : controls.openAt? s.rest = some (.tag, inner))
    (hstart : simpleTag? "raw".toList (controls.closing .tag) inner = some (tagLength, startAfter))
    (hend : findRawEnd? (controls.opening .tag) (controls.closing .tag) 0 0 (inner.drop tagLength) =
      some (length, endLength, stopBefore, stopAfter)) {n : Nat}
    (hn : n = (controls.opening .tag).length + tagLength) :
    ∃ next, s.step controls = .token
        (.data (String.ofList (kept startAfter stopBefore ((inner.drop tagLength).take length))))
        ⟨(s.cursor.skip n).at_, (s.cursor.skip (n + length)).at_⟩ next ∧
      next.cursor = s.cursor.skip (n + (length + endLength)) ∧
      next.rest = (inner.drop tagLength).drop (length + endLength) ∧ next.mode = .text ∧
      next.trimNext = (s.trimNext || stopAfter) := by
  obtain ⟨behind, hstep, hcursor, hbehind, hmode', htrim⟩ := step_eq_raw hmode hopen hstart
  rw [hstep, State.raw, hbehind, hend, ← Cursor.skip_skip, ← Cursor.skip_skip, hn, ← hcursor]
  refine ⟨_, rfl, rfl, ?_, hmode', ?_⟩
  · change behind.rest.drop _ = _
    rw [hbehind]
  · change (behind.trimNext || stopAfter) = _
    rw [htrim]

/-- Between delimiters a step reads what is inside. -/
theorem step_inside {m : Marker} (hm : m ≠ .comment) (hmode : s.mode = modeOf m) :
    s.step controls = s.inside controls m m.ending := by
  cases m with
  | output | tag =>
    rw [State.step, hmode]
    rfl
  | comment => exact absurd rfl hm

/-- White space between delimiters is passed. -/
theorem step_blank {m : Marker} {cs : List Char} (hm : m ≠ .comment) (hmode : s.mode = modeOf m)
    (hrest : s.rest = cs) (hblank : cs.takeWhile Text.isAsciiBlank ≠ []) :
    ∃ next, s.step controls = .skip next ∧
      next.cursor = s.cursor.skip (cs.takeWhile Text.isAsciiBlank).length ∧
      next.rest = cs.dropWhile Text.isAsciiBlank ∧ next.mode = modeOf m ∧
      next.trimNext = s.trimNext := by
  refine ⟨s.skip (cs.takeWhile Text.isAsciiBlank).length, ?_, rfl, ?_, hmode, rfl⟩
  · rw [step_inside hm hmode, State.inside, hrest, if_pos (List.length_pos_iff.mpr hblank)]
  · simpa [hrest] using drop_length_takeWhile Text.isAsciiBlank cs []

/-- At a closing delimiter the text goes on. -/
theorem step_close {m : Marker} {cs rest : List Char} {after : Bool} (hm : m ≠ .comment)
    (hmode : s.mode = modeOf m) (hrest : s.rest = cs) (hfront : cs.takeWhile Text.isAsciiBlank = [])
    (hclose : closingAt? controls m cs = some (after, rest)) {n : Nat}
    (hn : n = ((if after then ['-'] else []) ++ controls.closing m).length) :
    ∃ next, s.step controls = .token m.ending (s.spanOf n) next ∧ next.cursor = s.cursor.skip n ∧
      next.rest = rest ∧ next.mode = .text ∧ next.trimNext = (s.trimNext || after) := by
  have hbehind := eq_append_of_closingAt? hclose
  have hstep : s.step controls = s.inside controls m m.ending := step_inside hm hmode
  rw [hstep, State.inside, hrest, hfront]
  dsimp only [List.length_nil]
  rw [if_neg (Nat.lt_irrefl 0), Text.startsWith, Text.startsWith]
  unfold closingAt? at hclose
  split at hclose
  · next hstrip =>
    obtain ⟨rfl, rfl⟩ := Prod.mk.inj (Option.some.inj hclose)
    rw [hstrip, if_pos Option.isSome_some]
    rw [hn, if_pos rfl, List.singleton_append, List.length_cons]
    refine ⟨_, rfl, rfl, ?_, rfl, by simp⟩
    change s.rest.drop _ = _
    rw [hrest, hbehind]
    exact List.drop_left' (by simp)
  · next hminus =>
    obtain ⟨rest, hstrip, heq⟩ := Option.map_eq_some_iff.mp hclose
    obtain ⟨rfl, rfl⟩ := Prod.mk.inj heq
    rw [hminus, if_neg (by simp), hstrip, if_pos Option.isSome_some]
    rw [hn, if_neg Bool.false_ne_true, List.nil_append]
    refine ⟨_, rfl, rfl, ?_, rfl, by simp [State.skip]⟩
    change s.rest.drop _ = _
    rw [hrest, hbehind]
    exact List.drop_left' (by simp)

/-- A token between delimiters is found. -/
theorem step_token {m : Marker} {cs : List Char} {t : Token} {n : Nat} (hm : m ≠ .comment)
    (hmode : s.mode = modeOf m) (hrest : s.rest = cs)
    (htoken : ∀ s : State, s.rest = cs → s.inside controls m m.ending = s.take t n) :
    ∃ next, s.step controls = .token t (s.spanOf n) next ∧ next.cursor = s.cursor.skip n ∧
      next.rest = cs.drop n ∧ next.mode = modeOf m ∧ next.trimNext = s.trimNext := by
  rw [step_inside hm hmode, htoken s hrest]
  exact ⟨_, rfl, rfl, by rw [State.rest_skip, hrest], hmode, rfl⟩

end Steps

/-- What is left behind white space is shorter than what was there before. -/
theorem length_dropWhile_lt {p : Char → Bool} {cs : List Char} (h : cs.takeWhile p ≠ []) :
    (cs.dropWhile p).length < cs.length := by
  have hpos := List.length_pos_iff.mpr h
  have hlength := congrArg List.length (List.takeWhile_append_dropWhile (p := p) (l := cs))
  rw [List.length_append] at hlength
  omega

/-- What is left behind a token is shorter than what was there before. -/
theorem length_drop_lt {n : Nat} {cs : List Char} (hne : cs ≠ []) (hn : 0 < n) :
    (cs.drop n).length < cs.length := by
  have hpos := List.length_pos_iff.mpr hne
  rw [List.length_drop]
  omega

/-- The tokens between delimiters are found one after the other, and then those behind the closing
delimiter. -/
theorem Inside.lexes (hsolid : Solid controls) {m : Marker} (hm : m ≠ .comment)
    {cs rest : List Char} {ts more : List Token} {after : Bool}
    (h : Inside controls m cs ts after rest) {s : State} (hmode : s.mode = modeOf m)
    (hrest : s.rest = cs)
    (hmore : ∀ s' : State, s'.rest = rest → s'.mode = .text →
      s'.trimNext = (s.trimNext || after) → Lexes controls s' more) :
    Lexes controls s (ts ++ more) := by
  induction h generalizing s with
  | blank hblank _ ih =>
    obtain ⟨next, hstep, -, hnext, hnextMode, htrim⟩ := step_blank hm hmode hrest hblank
    have hshorter : next.rest.length < s.rest.length := by
      rw [hnext, hrest]
      exact length_dropWhile_lt hblank
    exact .skip hstep hshorter (ih hnextMode hnext (htrim ▸ hmore))
  | close hfront hclose =>
    obtain ⟨next, hstep, -, hnext, hnextMode, htrim⟩ :=
      step_close hm hmode hrest hfront hclose rfl
    have hshorter : next.rest.length < s.rest.length := by
      rw [hnext, hrest]
      exact hsolid.length_lt_of_closingAt? hclose
    exact .token hstep hshorter (hmore next hnext hnextMode htrim)
  | token hne hn htoken _ ih =>
    obtain ⟨next, hstep, -, hnext, hnextMode, htrim⟩ := step_token hm hmode hrest htoken
    have hshorter : next.rest.length < s.rest.length := by
      rw [hnext, hrest]
      exact length_drop_lt hne hn
    exact .token hstep hshorter (ih hnextMode hnext (htrim ▸ hmore))

/-- What is read of a raw block and behind it stands behind its opening delimiter. -/
theorem drop_drop_suffix (i j : Nat) (cs : List Char) : (cs.drop i).drop j <:+ cs :=
  (List.drop_suffix _ _).trans (List.drop_suffix _ _)

/-- The tokens of a source are those of its pieces. White space is dropped at the front if it was to
be dropped. -/
theorem Divides.lexes (hsolid : Solid controls) {cs : List Char} {ps : List Piece}
    (h : Divides controls cs ps) {s : State} (hmode : s.mode = .text) (hrest : s.rest = cs) :
    Lexes controls s (tokensOf true s.trimNext ps) := by
  induction h generalizing s with
  | nil => exact .nil hrest hmode
  | @text before rest ps hne hsilent hopening h ih =>
    obtain ⟨-, next, -, hnext, hnextMode, htrim, hstep⟩ :=
      step_literal hsolid hmode hrest hne hsilent hopening rfl rfl
    have hshorter : next.rest.length < s.rest.length := by
      rw [hnext, hrest, List.length_append]
      exact Nat.lt_add_of_pos_left (List.length_pos_iff.mpr hne)
    have hlater := ih hnextMode hnext
    rw [htrim] at hlater
    rw [tokensOf, h.minusAhead_eq hsolid, dataTokens]
    split at hstep
    · next hempty =>
      rw [if_pos hempty]
      exact .skip hstep hshorter hlater
    · next hsome =>
      rw [if_neg hsome]
      exact .token hstep hshorter hlater
  | comment hopen hsplit _ ih =>
    obtain ⟨next, hstep, -, hnext, hnextMode, htrim⟩ := step_comment hmode (hrest ▸ hopen) hsplit
    have hshorter : next.rest.length < s.rest.length := by
      rw [hnext, hrest]
      exact hsolid.length_lt_of_suffix hopen (⟨_, (Text.eq_of_splitAt? hsplit).symm⟩)
    have hlater := ih hnextMode hnext
    rw [htrim] at hlater
    exact .skip hstep hshorter hlater
  | region hopen hm hinside _ ih =>
    obtain ⟨next, hstep, -, hnext, hnextMode, htrim⟩ := step_region hmode (hrest ▸ hopen) hm rfl
    have hshorter : next.rest.length < s.rest.length := by
      rw [hnext, hrest]
      exact hsolid.length_lt_of_suffix hopen (List.drop_suffix _ _)
    refine .token hstep hshorter (hinside.lexes hsolid (ne_comment_of hm) hnextMode hnext ?_)
    intro s' hs' hmode' hafter
    rw [htrim] at hafter
    rw [Bool.true_and, ← hafter]
    exact ih hmode' hs'
  | raw hopen hstart hend _ ih =>
    obtain ⟨next, hstep, -, hnext, hnextMode, htrim⟩ :=
      step_raw hmode (hrest ▸ hopen) hstart hend rfl
    have hshorter : next.rest.length < s.rest.length := by
      rw [hnext, hrest]
      exact hsolid.length_lt_of_suffix hopen (drop_drop_suffix _ _ _)
    have hlater := ih hnextMode hnext
    rw [htrim] at hlater
    exact .token hstep hshorter hlater

/-- A source that is divided into pieces has no fault, and its tokens are those of the pieces. -/
theorem Divides.lex_eq (hsolid : Solid controls) {source : String} {ps : List Piece}
    (h : Divides controls source.toList ps) :
    (lex controls source).tokens.map Prod.fst = tokensOf true false ps ∧
      (lex controls source).error? = none :=
  h.lexes hsolid (s := { cursor := { rest := source.toList } }) rfl rfl _ (Nat.le_refl _)

end Lexer

end Templating
