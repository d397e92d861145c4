import Templating.Proofs.Template.Delimiters
import Templating.Proofs.Template.TokenText

/-!
# Pieces without their delimiters

The same pieces can be written out with any delimiters. The delimiters are told from the text as
long as none of their characters is in the text and white space, or a minus sign with white space on
its other side, stands at both ends between two delimiters. One reading remains that depends on the
delimiters: where nothing but white space stands in a tag, a closing delimiter that goes together
with the word `raw` is taken for that word.
-/

namespace Templating

/-- A piece of a source without its delimiters. -/
inductive Segment where
  | literal (text : List Char)
  | region (marker : Marker) (inner : List Char)
  /-- A raw tag, literal text and the end tag. -/
  | raw (start content stop : List Char)
  deriving Repr, DecidableEq

namespace Segment

/-- A text between the delimiters of a region. -/
def enclosed (controls : Controls) (m : Marker) (inner : List Char) : List Char :=
  controls.opening m ++ (inner ++ controls.closing m)

/-- The piece with its delimiters. -/
def written (controls : Controls) : Segment → List Char
  | .literal text => text
  | .region m inner => enclosed controls m inner
  | .raw start content stop =>
    enclosed controls .tag start ++ (content ++ enclosed controls .tag stop)

/-- All pieces with their delimiters. -/
def allWritten (controls : Controls) (segments : List Segment) : List Char :=
  segments.flatMap (written controls)

/-- The texts of a piece that no rule prescribes. -/
def texts : Segment → List (List Char)
  | .literal text => [text]
  | .region _ inner => [inner]
  | .raw _ content _ => [content]

/-- The text begins with white space, or with a minus sign that white space follows. -/
def beginsBlank : List Char → Bool
  | '-' :: c :: _ => Text.isAsciiBlank c
  | c :: _ => Text.isAsciiBlank c
  | [] => false

/-- At both ends of the text there is white space, or a minus sign with white space next to it. -/
def Spaced (inner : List Char) : Prop :=
  beginsBlank inner = true ∧ beginsBlank inner.reverse = true

instance (inner : List Char) : Decidable (Spaced inner) := inferInstanceAs (Decidable (_ ∧ _))

/-- The text without a minus sign and white space at its front. -/
def bare (inner : List Char) : List Char :=
  (inner.drop (Lexer.minusLength inner)).dropWhile Text.isAsciiBlank

/-- The text without minus signs and white space at its ends. -/
def core (inner : List Char) : List Char := (bare (bare inner).reverse).reverse

/-- Every string literal opened in the text is closed in it. The quote is that of a literal which is
open in front of the text. -/
def closesStrings : Option Char → List Char → Bool
  | quote, [] => quote.isNone
  | none, c :: cs => closesStrings (if c = '\'' ∨ c = '"' then some c else none) cs
  | some quote, '\\' :: _ :: cs => closesStrings (some quote) cs
  | some quote, c :: cs => closesStrings (if c = quote then none else some quote) cs

/-- What stands between delimiters keeps to the rules: there is white space at both ends, string
literals are closed, and the words of raw tags stand in pairs. -/
def Regular : Segment → Prop
  | .literal _ => True
  | .region m inner => Spaced inner ∧ (m ≠ .comment → closesStrings none inner = true) ∧
      (m = .tag → core inner ≠ "raw".toList)
  | .raw start _ stop => (Spaced start ∧ core start = "raw".toList) ∧
      Spaced stop ∧ core stop = "endraw".toList

instance : DecidablePred Regular
  | .literal _ => inferInstanceAs (Decidable True)
  | .region _ _ => inferInstanceAs (Decidable (_ ∧ _ ∧ _))
  | .raw _ _ _ => inferInstanceAs (Decidable ((_ ∧ _) ∧ _ ∧ _))

/-- No character of a delimiter is in the text. -/
def Apart (controls : Controls) (text : List Char) : Prop :=
  ∀ m, ∀ c ∈ controls.opening m ++ controls.closing m, c ∉ text

instance (controls : Controls) (text : List Char) : Decidable (Apart controls text) :=
  inferInstanceAs (Decidable (∀ m, ∀ c ∈ controls.opening m ++ controls.closing m, c ∉ text))

/-- If the piece is a tag with nothing but white space in it, neither of its closing delimiter and
the word `raw` begins with the other. -/
def Unmistakable (controls : Controls) : Segment → Prop
  | .region .tag inner => bare inner = [] →
    ¬controls.closing .tag <+: "raw".toList ∧ ¬"raw".toList <+: controls.closing .tag
  | _ => True

instance (controls : Controls) : DecidablePred (Unmistakable controls)
  | .region .tag _ => inferInstanceAs (Decidable (_ → _ ∧ _))
  | .region .output _ => inferInstanceAs (Decidable True)
  | .region .comment _ => inferInstanceAs (Decidable True)
  | .literal _ => inferInstanceAs (Decidable True)
  | .raw _ _ _ => inferInstanceAs (Decidable True)

section Recognition

variable {controls : Controls}

/-- What is left out of a bare text is at most a minus sign, and white space. -/
theorem exists_bare (cs : List Char) : ∃ sign blanks,
    cs = sign ++ (blanks ++ bare cs) ∧ sign = cs.take (Lexer.minusLength cs) ∧
      (sign = [] ∨ sign = ['-']) ∧ ∀ c ∈ blanks, Text.isAsciiBlank c = true := by
  refine ⟨cs.take (Lexer.minusLength cs),
    (cs.drop (Lexer.minusLength cs)).takeWhile Text.isAsciiBlank, ?_, rfl, ?_, ?_⟩
  · rw [bare, List.takeWhile_append_dropWhile, List.take_append_drop]
  · exact Lexer.take_minusLength cs
  · exact fun c hc => List.mem_takeWhile_imp hc

/-- A minus sign at the front is part of the text. -/
theorem minusLength_le (cs : List Char) : Lexer.minusLength cs ≤ cs.length := by
  unfold Lexer.minusLength
  split <;> simp

/-- Whether a text begins with a minus sign is seen in the text. -/
theorem minusLength_append {cs : List Char} (hne : cs ≠ []) (rest : List Char) :
    Lexer.minusLength (cs ++ rest) = Lexer.minusLength cs := by
  obtain ⟨c, cs, rfl⟩ := List.exists_cons_of_ne_nil hne
  by_cases hminus : c = '-'
  · subst hminus
    rfl
  · simp [Lexer.minusLength, hminus]

/-- The text is bare as it is by itself, unless nothing is left of it. -/
theorem bare_append {inner : List Char} (hne : inner ≠ []) (rest : List Char) :
    bare (inner ++ rest) =
      if (bare inner).isEmpty then rest.dropWhile Text.isAsciiBlank else bare inner ++ rest := by
  rw [bare, minusLength_append hne, List.drop_append_of_le_length (minusLength_le inner),
    List.dropWhile_append]
  rfl

/-- A closing delimiter begins neither with white space nor with a minus sign. -/
theorem closing_front (h : controls.Plain) (m : Marker) (rest : List Char) :
    (controls.closing m ++ rest).dropWhile Text.isAsciiBlank = controls.closing m ++ rest ∧
      Lexer.minusLength (controls.closing m ++ rest) = 0 := by
  obtain ⟨c, cs, hclosing, hminus, hblank⟩ := h.exists_closing m
  rw [hclosing]
  exact ⟨List.dropWhile_cons_of_neg (by simp [hblank]),
    Lexer.minusLength.eq_2 _ fun _ heq => hminus (List.cons.inj heq).1⟩

/-- What is left of a word tag behind its word: white space and at most a minus sign. -/
theorem exists_core {inner name : List Char} (h : core inner = name) (hne : name ≠ []) :
    ∃ blanks sign, bare inner = name ++ (blanks ++ sign) ∧
      sign.length = Lexer.minusLength inner.reverse ∧ (sign = [] ∨ sign = ['-']) ∧
      ∀ c ∈ blanks, Text.isAsciiBlank c = true := by
  obtain ⟨sign, blanks, heq, hsign, hshape, hblanks⟩ := exists_bare (bare inner).reverse
  have hbare : bare inner = name ++ (blanks.reverse ++ sign) := by
    have hreverse := congrArg List.reverse heq
    rw [List.reverse_reverse, List.reverse_append, List.reverse_append, ← core, h] at hreverse
    rw [hreverse, List.append_assoc]
    rcases hshape with rfl | rfl <;> rfl
  refine ⟨blanks.reverse, sign, hbare, ?_, hshape, fun c hc => hblanks c (List.mem_reverse.mp hc)⟩
  -- the last character is the same with and without what is left out in front
  obtain ⟨front, blanks', hinner, -⟩ := exists_bare inner
  have hsome : (bare inner).reverse ≠ [] := by simp [hbare, hne]
  rw [hinner, ← List.append_assoc, List.reverse_append, minusLength_append hsome, hsign,
    List.length_take_of_le (minusLength_le _)]

/-- White space in front of a text in which none comes first is dropped. -/
theorem dropWhile_blanks {blanks cs : List Char}
    (hblanks : ∀ c ∈ blanks, Text.isAsciiBlank c = true)
    (hcs : cs.dropWhile Text.isAsciiBlank = cs) :
    (blanks ++ cs).dropWhile Text.isAsciiBlank = cs := by
  rw [List.dropWhile_append_of_pos hblanks, hcs]

/-- A tag of one word is recognised. -/
theorem simpleTag?_of_core (h : controls.Plain) {inner name : List Char} (hcore : core inner = name)
    (hne : name ≠ []) (rest : List Char) :
    Lexer.simpleTag? name (controls.closing .tag) (inner ++ controls.closing .tag ++ rest) =
      some ((inner ++ controls.closing .tag).length, Lexer.minusLength inner.reverse == 1) := by
  obtain ⟨blanks, sign, hbare, hsign, hshape, hblanks⟩ := exists_core hcore hne
  obtain ⟨hfront, hminus⟩ := closing_front h .tag rest
  generalize htail : controls.closing .tag ++ rest = tail at hfront hminus
  have hinner : inner ≠ [] := by
    rintro rfl
    have hnil : [] = name ++ (blanks ++ sign) := hbare
    exact hne (List.append_eq_nil_iff.mp hnil.symm).1
  have hname : bare (inner ++ tail) = name ++ (blanks ++ (sign ++ tail)) := by
    rw [bare_append hinner, hbare, if_neg (by simp [hne])]
    simp
  have hword : (blanks ++ (sign ++ tail)).dropWhile Text.isAsciiBlank = sign ++ tail := by
    refine dropWhile_blanks hblanks ?_
    rcases hshape with rfl | rfl
    · exact hfront
    · exact List.dropWhile_cons_of_neg (by decide)
  have hlength : Lexer.minusLength (sign ++ tail) = sign.length := by
    rcases hshape with rfl | rfl
    · exact hminus
    · rfl
  have hstrip : Text.stripStart? name (name ++ (blanks ++ (sign ++ tail))) =
      some (blanks ++ (sign ++ tail)) := Text.stripStart?_eq_some_iff.mpr rfl
  have hclose : Text.stripStart? (controls.closing .tag) tail = some rest :=
    Text.stripStart?_eq_some_iff.mpr htail.symm
  rw [List.append_assoc, htail, Lexer.simpleTag?]
  change (do
    let afterName ← Text.stripStart? name (bare (inner ++ tail))
    let word := afterName.dropWhile Text.isAsciiBlank
    let rest ← Text.stripStart? (controls.closing .tag) (word.drop (Lexer.minusLength word))
    some ((inner ++ tail).length - rest.length, Lexer.minusLength word == 1)) = _
  rw [hname, hstrip]
  simp only [Option.bind_eq_bind, Option.bind_some, hword, hlength, List.drop_left, hclose]
  rw [hsign, ← htail, ← List.append_assoc, List.length_append, Nat.add_sub_cancel]

/-- In a tag of one word the word stands first in the bare text, and then, behind white space and a
minus sign, the closing delimiter. -/
theorem exists_of_simpleTag? {name closing cs : List Char} {found : Nat × Bool}
    (h : Lexer.simpleTag? name closing cs = some found) :
    ∃ after left, bare cs = name ++ after ∧ (after.dropWhile Text.isAsciiBlank).drop
      (Lexer.minusLength (after.dropWhile Text.isAsciiBlank)) = closing ++ left := by
  unfold Lexer.simpleTag? at h
  simp only [Option.bind_eq_bind, Option.bind_eq_some_iff] at h
  obtain ⟨after, hname, left, hclose, -⟩ := h
  exact ⟨after, left, Text.stripStart?_eq_some_iff.mp hname,
    Text.stripStart?_eq_some_iff.mp hclose⟩

/-- A word with nothing but white space and a minus sign behind it is the core of the text. -/
theorem core_eq {inner blanks sign : List Char}
    (hbare : bare inner = "raw".toList ++ (blanks ++ sign))
    (hblanks : ∀ c ∈ blanks, Text.isAsciiBlank c = true) (hsign : sign = [] ∨ sign = ['-']) :
    core inner = "raw".toList := by
  have hrest : (blanks.reverse ++ "raw".toList.reverse).dropWhile Text.isAsciiBlank =
      "raw".toList.reverse :=
    dropWhile_blanks (fun c hc => hblanks c (List.mem_reverse.mp hc)) (by decide)
  have hreverse : (bare inner).reverse =
      sign ++ (blanks.reverse ++ "raw".toList.reverse) := by
    rw [hbare]
    rcases hsign with rfl | rfl <;> simp
  have hminus : Lexer.minusLength (sign ++ (blanks.reverse ++ "raw".toList.reverse)) =
      sign.length := by
    rcases hsign with rfl | rfl
    · cases hlast : blanks.reverse with
      | nil => rfl
      | cons c cs =>
        have hblank := hblanks c (List.mem_reverse.mp (hlast ▸ List.mem_cons_self))
        refine Lexer.minusLength.eq_2 _ fun _ heq => ?_
        rw [(List.cons.inj heq).1] at hblank
        exact absurd hblank (by decide)
    · rfl
  rw [core, hreverse, bare, hminus, List.drop_left, hrest, List.reverse_reverse]

/-- At the end of a spaced text there is white space or a minus sign, and white space unless nothing
but the minus sign is left. -/
theorem exists_of_suffix {inner tail : List Char} (h : beginsBlank inner.reverse = true)
    (hsuffix : tail <:+ inner) (hne : tail ≠ []) :
    tail = ['-'] ∨ ∃ b ∈ tail, Text.isAsciiBlank b = true := by
  obtain ⟨front, rfl⟩ := hsuffix
  obtain ⟨c, cs, hreverse⟩ := List.exists_cons_of_ne_nil (List.reverse_ne_nil_iff.mpr hne)
  rw [List.reverse_append, hreverse, List.cons_append] at h
  have hmem {b : Char} (hb : b ∈ c :: cs) : b ∈ tail := by
    rw [← hreverse] at hb
    exact List.mem_reverse.mp hb
  by_cases hblank : Text.isAsciiBlank c = true
  · exact .inr ⟨c, hmem List.mem_cons_self, hblank⟩
  · have hminus : c = '-' := by
      by_contra hminus
      simp [beginsBlank, hminus] at h
      exact hblank h
    subst hminus
    cases cs with
    | nil =>
      refine .inl ?_
      rw [← List.reverse_reverse tail, hreverse]
      rfl
    | cons b cs => exact .inr ⟨b, hmem (by simp), h⟩

/-- A tag that is not the word `raw` is not taken for it. -/
theorem simpleTag?_eq_none (h : controls.Plain) {inner : List Char} (hspaced : Spaced inner)
    (hapart : Apart controls inner) (hcore : core inner ≠ "raw".toList)
    (hunmistakable : Unmistakable controls (.region .tag inner)) (rest : List Char) :
    Lexer.simpleTag? "raw".toList (controls.closing .tag) (inner ++ controls.closing .tag ++ rest) =
      none := by
  rw [Option.eq_none_iff_forall_ne_some]
  intro found hfound
  obtain ⟨after, left, hname, hclose⟩ := exists_of_simpleTag? hfound
  obtain ⟨hfront, -⟩ := closing_front h .tag rest
  have hinner : inner ≠ [] := by
    rintro rfl
    exact absurd hspaced.1 (by decide)
  have hchars : ∀ c ∈ "raw".toList, Text.isAsciiBlank c = false ∧ c ≠ '-' := by decide
  rw [List.append_assoc, bare_append hinner] at hname
  split at hname
  · next hempty =>
    -- nothing but white space: the word would have to stand in the closing delimiter
    rw [hfront] at hname
    obtain ⟨hnot, hnot'⟩ := hunmistakable (List.isEmpty_iff.mp hempty)
    rcases List.append_eq_append_iff.mp hname with ⟨more, heq, -⟩ | ⟨more, heq, -⟩
    · exact hnot ⟨more, heq.symm⟩
    · exact hnot' ⟨more, heq.symm⟩
  · next hsome =>
    have hsuffix : bare inner <:+ inner :=
      (List.dropWhile_suffix _).trans (List.drop_suffix _ _)
    have hne : bare inner ≠ [] := fun hnil => hsome (List.isEmpty_iff.mpr hnil)
    rcases List.append_eq_append_iff.mp hname with ⟨more, heq, -⟩ | ⟨more, heq, rfl⟩
    · -- the word would go on behind the text, whose last characters are not in the word
      have hmem {c : Char} (hc : c ∈ bare inner) : c ∈ "raw".toList :=
        heq ▸ List.mem_append_left _ hc
      rcases exists_of_suffix hspaced.2 hsuffix hne with hminus | ⟨b, hb, hblank⟩
      · exact (hchars '-' (hmem (by simp [hminus]))).2 rfl
      · exact Bool.false_ne_true ((hchars b (hmem hb)).1.symm.trans hblank)
    · -- something stands behind the word, and the closing delimiter does not begin with it
      obtain ⟨blanks, behind, hmore, hblanks, hbehind⟩ : ∃ blanks behind, more = blanks ++ behind ∧
          (∀ c ∈ blanks, Text.isAsciiBlank c = true) ∧
          behind = more.dropWhile Text.isAsciiBlank :=
        ⟨more.takeWhile Text.isAsciiBlank, _, (List.takeWhile_append_dropWhile).symm,
          fun c hc => List.mem_takeWhile_imp hc, rfl⟩
      have hsome : behind ≠ [] := by
        rintro rfl
        exact hcore (core_eq (heq.trans (by rw [hmore])) hblanks (.inl rfl))
      have hword : (more ++ (controls.closing .tag ++ rest)).dropWhile Text.isAsciiBlank =
          behind ++ (controls.closing .tag ++ rest) := by
        rw [List.dropWhile_append, ← hbehind, if_neg (by simpa using hsome)]
      rw [hword, minusLength_append hsome,
        List.drop_append_of_le_length (minusLength_le _)] at hclose
      cases hdrop : behind.drop (Lexer.minusLength behind) with
      | nil =>
        have hall := List.take_append_drop (Lexer.minusLength behind) behind
        rw [hdrop, List.append_nil] at hall
        refine hcore (core_eq (heq.trans (by rw [hmore])) hblanks ?_)
        exact hall ▸ Lexer.take_minusLength behind
      | cons c cs =>
        obtain ⟨d, ds, hclosing, -, -⟩ := h.exists_closing .tag
        rw [hdrop, hclosing] at hclose
        have hd : d ∈ controls.opening .tag ++ controls.closing .tag := by simp [hclosing]
        have hc : c ∈ inner := by
          refine hsuffix.subset ?_
          rw [heq, hmore]
          have hbehind' : c ∈ behind := List.mem_of_mem_drop (hdrop ▸ List.mem_cons_self)
          simp [hbehind']
        exact hapart .tag d hd ((List.cons.inj hclose).1 ▸ hc)

/-- An opening delimiter is recognised in front of a spaced text. -/
theorem openAt?_enclosed (h : controls.Plain) (m : Marker) {inner : List Char}
    (hspaced : Spaced inner) (rest : List Char) :
    controls.openAt? (enclosed controls m inner ++ rest) =
      some (m, inner ++ controls.closing m ++ rest) := by
  cases inner with
  | nil => exact absurd hspaced.1 (by decide)
  | cons c cs =>
    have hc (m' : Marker) : c ∉ controls.opening m' := by
      intro hmem
      obtain ⟨hminus, hblank⟩ := h.chars m' c (List.mem_append_left _ hmem)
      have hfront : Text.isAsciiBlank c = true := by simpa [beginsBlank, hminus] using hspaced.1
      exact Bool.false_ne_true (hblank.symm.trans (Text.isBlank_of_isAsciiBlank hfront))
    rw [enclosed, List.append_assoc]
    exact Controls.openAt?_of_notMem h.check m hc (cs ++ controls.closing m ++ rest)

/-- A delimiter does not begin inside a text that does not have its first character. -/
theorem onlyAtEnd_of_notMem {text cs : List Char} {c : Char} (h : c ∉ text) :
    Text.OnlyAtEnd (c :: cs) (text ++ c :: cs) := by
  intro before after heq
  rw [List.append_assoc] at heq
  rcases List.append_eq_append_iff.mp heq with ⟨more, -, htail⟩ | ⟨more, htext, htail⟩
  · have hlength := congrArg List.length htail
    simp only [List.length_append, List.length_cons] at hlength
    exact List.eq_nil_of_length_eq_zero (by omega)
  · cases more with
    | nil =>
      have hlength := congrArg List.length htail
      simp only [List.length_append, List.length_cons, List.nil_append] at hlength
      exact List.eq_nil_of_length_eq_zero (by omega)
    | cons d more =>
      have hd : c = d := (List.cons.inj htail).1
      exact absurd (by simp [htext, hd]) h

/-- Delimiters do not begin inside a text that has none of their characters. -/
theorem Apart.onlyAtEnd (h : controls.Plain) {text : List Char} (hapart : Apart controls text)
    (m : Marker) : Text.OnlyAtEnd (controls.opening m) (text ++ controls.opening m) ∧
      Text.OnlyAtEnd (controls.closing m) (text ++ controls.closing m) := by
  obtain ⟨hopening, hclosing⟩ := Controls.nonempty_of_check h.check m
  obtain ⟨c, cs, hopening⟩ := List.exists_cons_of_ne_nil hopening
  obtain ⟨d, ds, hclosing⟩ := List.exists_cons_of_ne_nil hclosing
  have hc := hapart m c (by simp [hopening])
  have hd := hapart m d (by simp [hclosing])
  rw [hopening, hclosing]
  exact ⟨onlyAtEnd_of_notMem hc, onlyAtEnd_of_notMem hd⟩

/-- No opening delimiter begins inside a text that has none of its characters. -/
theorem Apart.silent (h : controls.Plain) {text : List Char} (hapart : Apart controls text)
    (rest : List Char) : Lexer.Silent controls text rest := by
  intro tail hne hsuffix
  rw [Option.eq_none_iff_forall_ne_some]
  rintro ⟨m, inner⟩ hopen
  obtain ⟨c, cs, hopening⟩ :=
    List.exists_cons_of_ne_nil (Controls.nonempty_of_check h.check m).1
  obtain ⟨d, ds, rfl⟩ := List.exists_cons_of_ne_nil hne
  have heq := Lexer.eq_append_of_openAt? hopen
  rw [hopening] at heq
  have hc := hapart m c (by simp [hopening])
  exact hc ((List.cons.inj heq).1 ▸ hsuffix.subset List.mem_cons_self)

end Recognition

section Strings

/-- Outside of string literals, characters that are no quotes open none. -/
theorem closesStrings_append {text : List Char} (h : ∀ c ∈ text, c ≠ '\'' ∧ c ≠ '"')
    (rest : List Char) : closesStrings none (text ++ rest) = closesStrings none rest := by
  induction text with
  | nil => rfl
  | cons c text ih =>
    obtain ⟨⟨hsingle, hdouble⟩, hlater⟩ := List.forall_mem_cons.mp h
    rw [List.cons_append, closesStrings, if_neg (not_or.mpr ⟨hsingle, hdouble⟩), ih hlater]

/-- A literal that is closed has a body, and behind its closing quote literals are closed. -/
theorem exists_stringBody? {quote : Char} {cs : List Char}
    (h : closesStrings (some quote) cs = true) :
    ∃ body rest, Lexer.stringBody? quote cs = some body ∧ cs = body ++ quote :: rest ∧
      closesStrings none rest = true := by
  fun_induction Lexer.stringBody? quote cs with
  | case1 => cases h
  | case2 c rest ih =>
    obtain ⟨body, rest, hbody, rfl, hrest⟩ := ih h
    exact ⟨_, rest, by rw [hbody]; rfl, rfl, hrest⟩
  | case3 rest hescape =>
    refine ⟨[], rest, rfl, rfl, ?_⟩
    rwa [closesStrings, if_pos rfl] at h
    exact hescape
  | case4 rest hescape hne =>
    cases rest with
    | nil => simp [closesStrings, hne] at h
    | cons c rest => exact absurd rfl (hescape c rest rfl)
  | case5 c rest hescape hne hslash ih =>
    rw [closesStrings, if_neg hne] at h
    · obtain ⟨body, rest, hbody, rfl, hrest⟩ := ih h
      exact ⟨_, rest, by rw [hbody]; rfl, rfl, hrest⟩
    · exact hescape

/-- No quote is part of a symbol. -/
theorem no_quote_of_punctuation? {cs : List Char} {t : Token} {n : Nat}
    (h : Lexer.punctuation? cs = some (t, n)) : ∀ c ∈ cs.take n, c ≠ '\'' ∧ c ≠ '"' := by
  unfold Lexer.punctuation? at h
  split at h
  all_goals first
    | cases h; simp
    | cases h

/-- No quote is part of a word. -/
theorem no_quote_of_wordText (cs : List Char) :
    ∀ c ∈ Lexer.wordText cs, c ≠ '\'' ∧ c ≠ '"' := by
  intro c hc
  have hpart : Lexer.isWordPart c = true := by
    cases cs with
    | nil => exact absurd hc List.not_mem_nil
    | cons d cs =>
      rw [Lexer.wordText] at hc
      split at hc
      · next hstart =>
        rcases List.mem_cons.mp hc with rfl | hc
        · simp [Lexer.isWordPart, hstart]
        · exact List.mem_takeWhile_imp hc
      · exact absurd hc List.not_mem_nil
  exact ⟨Lexer.ne_of_isWordPart hpart (by decide), Lexer.ne_of_isWordPart hpart (by decide)⟩

/-- No quote is part of a number. -/
theorem no_quote_of_numberText (part : Lexer.NumberPart) (cs : List Char) :
    ∀ c ∈ (Lexer.numberText part cs).1, c ≠ '\'' ∧ c ≠ '"' := by
  induction cs generalizing part with
  | nil => exact fun c hc => absurd hc List.not_mem_nil
  | cons d cs ih =>
    rw [Lexer.numberText]
    cases hnext : part.next? d cs with
    | none => exact fun c hc => absurd hc List.not_mem_nil
    | some part' =>
      refine List.forall_mem_cons.mpr ⟨⟨?_, ?_⟩, ih part'⟩ <;>
      · rintro rfl
        cases part <;> cases hnext

/-- Behind a token that was read the string literals are closed if they were in front of it. -/
theorem closesStrings_of_readFrom {t : Token} {text rest : List Char}
    (h : Lexer.ReadFrom t text) (hcloses : closesStrings none (text ++ rest) = true) :
    closesStrings none rest = true := by
  cases h with
  | symbol hsymbol =>
    have hquotes := no_quote_of_punctuation? hsymbol
    rw [List.take_length] at hquotes
    rwa [closesStrings_append hquotes] at hcloses
  | word _ hword =>
    rwa [closesStrings_append (hword ▸ no_quote_of_wordText text)] at hcloses
  | number hnumber _ =>
    have hquotes := no_quote_of_numberText .whole text
    rw [hnumber] at hquotes
    rwa [closesStrings_append hquotes] at hcloses
  | @string quote body value hquote hbody _ =>
    rw [List.append_assoc, List.cons_append, closesStrings, if_pos hquote, List.singleton_append]
      at hcloses
    have hslash : quote ≠ '\\' := by rcases hquote with rfl | rfl <;> decide
    obtain ⟨-, -, hother⟩ := Lexer.exists_closing_quote hslash hbody
    obtain ⟨body', rest', hbody', heq, hrest⟩ := exists_stringBody? hcloses
    obtain rfl : body = body' := Option.some.inj ((hother rest).symm.trans hbody')
    exact (List.cons.inj (List.append_cancel_left heq)).2 ▸ hrest

end Strings

end Segment

end Templating
