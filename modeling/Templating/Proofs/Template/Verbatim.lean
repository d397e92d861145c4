import Templating.Proofs.Template.Delimiters
import Templating.Proofs.Template.RoundTrip

/-!
# Sources without output points and tags

A source of literal text, comments and raw blocks is read as its literal text and the contents of
its raw blocks. Literal texts that stand side by side, and those around nothing, are one piece of
the source, so the source is followed with the literal text that was met and not yet ended.
-/

namespace Templating

/-- A part of a source. -/
inductive Passage where
  | literal (text : List Char)
  | comment (text : List Char)
  | raw (text : List Char)

namespace Passage

/-- How a part stands in a source. -/
def written (controls : Controls) : Passage → List Char
  | .literal text => text
  | .comment text => controls.opening .comment ++ (' ' :: text ++ ' ' :: controls.closing .comment)
  | .raw text =>
    controls.opening .tag ++ (' ' :: "raw".toList ++ ' ' :: controls.closing .tag ++
      (text ++ controls.opening .tag ++ (' ' :: "endraw".toList ++ ' ' :: controls.closing .tag)))

/-- What is written of a part when the source is rendered. -/
def shown : Passage → List Char
  | .literal text => text
  | .comment _ => []
  | .raw text => text

/-- How parts stand in a source. -/
def allWritten (controls : Controls) (passages : List Passage) : List Char :=
  passages.flatMap (written controls)

/-- What is written of parts when the source is rendered. -/
def allShown (passages : List Passage) : List Char := passages.flatMap shown

/-- In the source no opening delimiter begins inside literal text, a comment closes at its end only,
and no tag opens in a raw block before its end tag. -/
def Clear (controls : Controls) : List Passage → Prop
  | [] => True
  | .literal text :: rest =>
    (∀ tail, tail ≠ [] → tail <:+ text →
      ∀ m, ¬controls.opening m <+: tail ++ allWritten controls rest) ∧ Clear controls rest
  | .comment text :: rest =>
    Text.OnlyAtEnd (controls.closing .comment) (' ' :: text ++ ' ' :: controls.closing .comment) ∧
      Clear controls rest
  | .raw text :: rest =>
    Text.OnlyAtEnd (controls.opening .tag) (text ++ controls.opening .tag) ∧ Clear controls rest

/-- To look at all that is left behind some place inside a text, look at each place. -/
theorem forall_suffix_iff {text : List Char} {P : List Char → Prop} :
    (∀ tail, tail ≠ [] → tail <:+ text → P tail) ↔ ∀ i, i < text.length → P (text.drop i) := by
  constructor
  · intro h i hi
    exact h _ (by simpa [List.drop_eq_nil_iff] using hi) (List.drop_suffix i text)
  · intro h tail hne hsuffix
    have hpos := List.length_pos_iff.mpr hne
    have hle := hsuffix.length_le
    rw [List.suffix_iff_eq_drop.mp hsuffix]
    exact h _ (by omega)

/-- It can be computed whether the parts are clear. -/
def decideClear (controls : Controls) : (passages : List Passage) →
    Decidable (Clear controls passages)
  | [] => .isTrue trivial
  | .literal text :: rest =>
    have := decideClear controls rest
    decidable_of_iff
      ((∀ i, i < text.length →
        ∀ m, ¬controls.opening m <+: text.drop i ++ allWritten controls rest) ∧
          Clear controls rest)
      (and_congr_left' (forall_suffix_iff (P := fun tail =>
        ∀ m, ¬controls.opening m <+: tail ++ allWritten controls rest)).symm)
  | .comment text :: rest =>
    have := decideClear controls rest
    inferInstanceAs (Decidable (Text.OnlyAtEnd (controls.closing .comment)
      (' ' :: text ++ ' ' :: controls.closing .comment) ∧ Clear controls rest))
  | .raw text :: rest =>
    have := decideClear controls rest
    inferInstanceAs (Decidable (Text.OnlyAtEnd (controls.opening .tag)
      (text ++ controls.opening .tag) ∧ Clear controls rest))

instance (controls : Controls) (passages : List Passage) :
    Decidable (Clear controls passages) := decideClear controls passages

end Passage

namespace Lexer

variable {controls : Controls}

/-- The text is divided so that its tokens are literal text, not more of them than characters, and
this is what they say together. -/
def Shows (controls : Controls) (cs shown : List Char) : Prop :=
  ∃ (pieces : List Piece) (texts : List (List Char)), Divides controls cs pieces ∧
    tokensOf true false pieces = texts.map (fun text => .data (String.ofList text)) ∧
    texts.flatten = shown ∧ texts.length ≤ cs.length

/-- No text shows nothing. -/
theorem Shows.nil : Shows controls [] [] :=
  ⟨[], [], .nil, rfl, rfl, Nat.le_refl _⟩

/-- Silent text shows itself. -/
theorem Shows.text (hsolid : Solid controls) {before cs shown : List Char}
    (hsilent : Silent controls before cs) (hopening : AtOpening controls cs)
    (hminus : opensWithMinus controls cs = false) (h : Shows controls cs shown) :
    Shows controls (before ++ cs) (before ++ shown) := by
  by_cases hne : before = []
  · rw [hne]
    exact h
  · obtain ⟨pieces, texts, hdivides, htokens, hshown, hlength⟩ := h
    refine ⟨_, before :: texts, .text hne hsilent hopening hdivides, ?_, ?_, ?_⟩
    · have hdata : dataTokens (kept false false before) = [.data (String.ofList before)] :=
        if_neg (by simpa [kept] using hne)
      rw [tokensOf, hdivides.minusAhead_eq hsolid, hminus, htokens, hdata]
      rfl
    · rw [List.flatten_cons, hshown]
    · have hpos := List.length_pos_iff.mpr hne
      rw [List.length_cons, List.length_append]
      omega

/-- A delimiter with a space behind it has no minus sign. -/
theorem opensWithMinus_eq (h : controls.Plain) (m : Marker) (rest : List Char) :
    opensWithMinus controls (controls.opening m ++ ' ' :: rest) = false := by
  rw [opensWithMinus, h.openAt?_eq]
  rfl

/-- A comment shows nothing. -/
theorem Shows.comment (h : controls.Plain) {text cs shown : List Char}
    (honly : Text.OnlyAtEnd (controls.closing .comment)
      (' ' :: text ++ ' ' :: controls.closing .comment)) (hcs : Shows controls cs shown) :
    Shows controls ((Passage.comment text).written controls ++ cs) shown := by
  obtain ⟨pieces, texts, hdivides, htokens, hshown, hlength⟩ := hcs
  have hbody : ' ' :: text ++ ' ' :: controls.closing .comment =
      ' ' :: text ++ [' '] ++ controls.closing .comment := by simp
  have hsplit : Text.splitAt? (controls.closing .comment)
      (' ' :: (text ++ ' ' :: controls.closing .comment ++ cs)) =
        some (' ' :: text ++ [' '], cs) := by
    rw [hbody] at honly
    have hsplit := honly.splitAt?_eq (h.solid.closing .comment) cs
    rwa [← hbody] at hsplit
  have hopen := h.openAt?_eq .comment (text ++ ' ' :: controls.closing .comment ++ cs)
  have hwritten : (Passage.comment text).written controls ++ cs =
      controls.opening .comment ++ ' ' :: (text ++ ' ' :: controls.closing .comment ++ cs) := by
    simp [Passage.written]
  rw [hwritten]
  refine ⟨_, texts, .comment hopen hsplit hdivides, ?_, hshown, ?_⟩
  · have hlast : (' ' :: text ++ [' ']).getLast? = some ' ' := by
      rw [List.getLast?_append]
      rfl
    rw [tokensOf, hlast, ← htokens]
    rfl
  · simp only [List.length_cons, List.length_append]
    omega

/-- A raw block shows its content. -/
theorem Shows.raw (h : controls.Plain) {text cs shown : List Char}
    (honly : Text.OnlyAtEnd (controls.opening .tag) (text ++ controls.opening .tag))
    (hcs : Shows controls cs shown) :
    Shows controls ((Passage.raw text).written controls ++ cs) (text ++ shown) := by
  obtain ⟨pieces, texts, hdivides, htokens, hshown, hlength⟩ := hcs
  let start := ' ' :: "raw".toList ++ ' ' :: controls.closing .tag
  let stop := ' ' :: "endraw".toList ++ ' ' :: controls.closing .tag
  let block := text ++ controls.opening .tag ++ (stop ++ cs)
  have hwritten : (Passage.raw text).written controls ++ cs =
      controls.opening .tag ++ (start ++ block) := by
    simp [Passage.written, start, stop, block]
  have hopen : controls.openAt? (controls.opening .tag ++ (start ++ block)) =
      some (.tag, start ++ block) := h.openAt?_eq .tag _
  have hstart : simpleTag? "raw".toList (controls.closing .tag) (start ++ block) =
      some (start.length, false) := simpleTag?_eq h (by decide) block
  have hend : findRawEnd? (controls.opening .tag) (controls.closing .tag) 0 0
      ((start ++ block).drop start.length) =
        some (0 + text.length, (controls.opening .tag ++ stop).length, false, false) := by
    rw [List.drop_left]
    exact findRawEnd?_eq h honly cs 0
  have hrest : ((start ++ block).drop start.length).drop
      (0 + text.length + (controls.opening .tag ++ stop).length) = cs := by
    have hblock : block = text ++ (controls.opening .tag ++ stop) ++ cs := by simp [block]
    rw [List.drop_left, Nat.zero_add, ← List.length_append, hblock, List.drop_left]
  have hcontent : ((start ++ block).drop start.length).take (0 + text.length) = text := by
    rw [List.drop_left, Nat.zero_add]
    simp [block]
  have hpiece := Divides.raw hopen hstart hend (hrest.symm ▸ hdivides)
  rw [hwritten]
  refine ⟨_, text :: texts, hpiece, ?_, ?_, ?_⟩
  · rw [tokensOf, hcontent, List.map_cons, ← htokens]
    rfl
  · rw [List.flatten_cons, hshown]
  · have hpos := List.length_pos_iff.mpr (h.solid.closing .tag)
    simp only [List.length_cons, List.length_append, start, block]
    omega

/-- No text is silent in front of any. -/
theorem silent_nil (cs : List Char) : Silent controls [] cs :=
  fun _ hne hsuffix => absurd (List.suffix_nil.mp hsuffix) hne

/-- Silent text in front of silent text. -/
theorem Silent.append {before after cs : List Char} (h : Silent controls before (after ++ cs))
    (hafter : Silent controls after cs) : Silent controls (before ++ after) cs := by
  intro tail hne hsuffix
  obtain ⟨front, hfront⟩ := hsuffix
  rcases List.append_eq_append_iff.mp hfront with ⟨more, hbefore, htail⟩ | ⟨more, -, htail⟩
  · by_cases hmore : more = []
    · rw [htail, hmore, List.nil_append] at hne ⊢
      exact hafter after hne (List.suffix_refl _)
    · rw [htail, List.append_assoc]
      exact h more hmore ⟨front, hbefore.symm⟩
  · exact hafter tail hne ⟨more, htail.symm⟩

/-- Text in which no opening delimiter begins is silent. -/
theorem silent_of_none_opens {before cs : List Char}
    (h : ∀ tail, tail ≠ [] → tail <:+ before → ∀ m, ¬controls.opening m <+: tail ++ cs) :
    Silent controls before cs := by
  intro tail hne hsuffix
  rw [Option.eq_none_iff_forall_ne_some]
  rintro ⟨m, inner⟩ hopen
  exact h tail hne hsuffix m ⟨inner, (eq_append_of_openAt? hopen).symm⟩

/-- The text at an opening delimiter with a space behind it. -/
theorem Shows.behind (h : controls.Plain) {m : Marker} {before cs rest shown : List Char}
    (hsilent : Silent controls before cs) (hcs : cs = controls.opening m ++ ' ' :: rest)
    (hshows : Shows controls cs shown) : Shows controls (before ++ cs) (before ++ shown) := by
  subst hcs
  apply Shows.text h.solid hsilent _ (opensWithMinus_eq h m rest) hshows
  exact .inr (by rw [h.openAt?_eq]; rfl)

/-- A source of literal text, comments and raw blocks shows what is to be shown of them, behind
literal text that was not ended. -/
theorem shows_allWritten (h : controls.Plain) {passages : List Passage}
    (hclear : Passage.Clear controls passages) {before : List Char}
    (hsilent : Silent controls before (Passage.allWritten controls passages)) :
    Shows controls (before ++ Passage.allWritten controls passages)
      (before ++ Passage.allShown passages) := by
  induction passages generalizing before with
  | nil =>
    have hminus : opensWithMinus controls [] = false := by
      rw [opensWithMinus, h.solid.openAt?_nil]
      rfl
    exact .text h.solid hsilent (.inl rfl) hminus .nil
  | cons passage rest ih =>
    have hwritten : Passage.allWritten controls (passage :: rest) =
        passage.written controls ++ Passage.allWritten controls rest := List.flatMap_cons
    have hshown : Passage.allShown (passage :: rest) = passage.shown ++ Passage.allShown rest :=
      List.flatMap_cons
    rw [hwritten] at hsilent ⊢
    rw [hshown]
    cases passage with
    | literal text =>
      rw [← List.append_assoc, ← List.append_assoc]
      exact ih hclear.2 (Silent.append hsilent (silent_of_none_opens hclear.1))
    | comment text =>
      have hlater := ih hclear.2 (silent_nil _)
      exact (Shows.comment h hclear.1 hlater).behind h hsilent (List.append_assoc _ _ _)
    | raw text =>
      have hlater := ih hclear.2 (silent_nil _)
      exact (Shows.raw h hclear.1 hlater).behind h hsilent (List.append_assoc _ _ _)

end Lexer

/-- Literal text at places of the source. -/
def literals (parts : List (String × Span)) : List Node :=
  parts.map fun part => .literal part.1 part.2

namespace Parser

/-- A loop that puts each literal text in front of the nodes and turns them around at the end reads
literal text behind what was read before. -/
theorem loops_literals {step : List Node → Parser (List Node ⊕ (List Node × Ending))}
    (hdata : ∀ nodes text xs, (step nodes).Takes (.data text :: xs) xs fun r =>
      ∃ span, r = .inl (.literal text span :: nodes))
    (hend : ∀ nodes, (step nodes).Takes [] [] fun r => r = .inr (nodes.reverse, none))
    (texts : List String) (parts : List (String × Span)) :
    Loops step (literals parts).reverse (texts.map .data) [] fun (nodes, ending) =>
      ending = none ∧ ∃ more, more.map Prod.fst = texts ∧ nodes = literals (parts ++ more) := by
  induction texts generalizing parts with
  | nil =>
    refine .done ((hend _).imp ?_)
    rintro r rfl
    exact ⟨_, rfl, rfl, [], rfl, by rw [List.reverse_reverse, List.append_nil]⟩
  | cons text texts ih =>
    refine .more (texts.map .data) (I := fun nodes => ∃ span,
      nodes = (literals (parts ++ [(text, span)])).reverse) ?_ (Nat.lt_succ_self _) ?_
    · refine (hdata _ text _).imp ?_
      rintro r ⟨span, rfl⟩
      exact ⟨_, rfl, span, by simp [literals]⟩
    · rintro nodes ⟨span, rfl⟩
      refine (ih (parts ++ [(text, span)])).imp ?_
      rintro ⟨nodes, ending⟩ ⟨hending, more, hmore, hnodes⟩
      refine ⟨hending, (text, span) :: more, ?_, ?_⟩
      · rw [List.map_cons, hmore]
      · rw [hnodes, List.append_assoc, List.singleton_append]

/-- Literal text alone is a sequence of literal text. -/
theorem sequence_takes_literals {expr : Parser Expr} {tag : String → Span → Parser Node}
    {isEnd : String → Bool} (texts : List String) :
    (sequence expr tag isEnd).Takes (texts.map .data) [] fun (nodes, ending) =>
      ending = none ∧ ∃ parts, parts.map Prod.fst = texts ∧ nodes = literals parts := by
  refine Loops.iterate (loops_literals ?_ ?_ texts [])
  · intro nodes text xs
    refine Takes.next.bind fun next hnext => ?_
    obtain ⟨⟨_, span⟩, rfl, rfl⟩ := Option.map_eq_some_iff.mp hnext
    exact .pure ⟨span, rfl⟩
  · intro nodes
    refine Takes.next_nil.bind fun next hnext => ?_
    rw [hnext]
    exact .pure rfl

/-- A template of literal text is read as literal text. -/
theorem template_takes_literals (registry : Registry) (texts : List String) :
    (Parser.template registry).Takes (texts.map .data) [] fun nodes =>
      ∃ parts, parts.map Prod.fst = texts ∧ nodes = literals parts := by
  refine (sequence_takes_literals texts).bind fun (nodes, ending) ⟨hend, hnodes⟩ => ?_
  obtain rfl : ending = none := hend
  exact .pure hnodes

end Parser

/-- A source that shows a text is parsed as literal text that says the same. -/
theorem Template.parse_of_shows (registry : Registry) {controls : Controls}
    (hsolid : Lexer.Solid controls) (name : String) {source : String} {shown : List Char}
    (h : Lexer.Shows controls source.toList shown) :
    ∃ parts : List (String × Span), (parts.map Prod.fst).flatMap String.toList = shown ∧
      parts.length ≤ source.length ∧
      Template.parse registry controls name source = .ok ⟨name, literals parts⟩ := by
  obtain ⟨pieces, texts, hdivides, htokens, hshown, hlength⟩ := h
  have hlex := hdivides.lex_eq hsolid
  have hdata : Lexer.tokensOf true false pieces = (texts.map String.ofList).map .data := by
    rw [htokens, List.map_map]
    rfl
  rw [hdata] at hlex
  obtain ⟨nodes, ⟨parts, hparts, rfl⟩, hparse⟩ :=
    parse_of_takes hlex (Parser.template_takes_literals registry _) name
  refine ⟨parts, ?_, ?_, hparse⟩
  · rw [hparts, List.flatMap_map, ← hshown]
    simp [List.flatMap_id']
  · have hcount := congrArg List.length hparts
    rw [List.length_map, List.length_map] at hcount
    rw [hcount]
    exact hlength

end Templating
