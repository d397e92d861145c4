import Templating.Proofs.Sorting
import Templating.Proofs.Template.Pieces

/-!
# Plain delimiters

Delimiters that are accepted are not empty, and the opening ones are distinct. Plain ones hold
neither white space nor minus signs. One of them with a space behind it is recognised as itself,
also where another one begins with it or is the beginning of it, since a longer one would hold the
space and a shorter one is tried later.
-/

namespace Templating

/-- The comparison by size, the larger item first, is a preorder. -/
theorem preorders_size {α : Type} (size : α → Nat) :
    Preorders (fun a b => compareOfLessAndEq (size b) (size a)) fun _ => True where
  swap a b := Std.OrientedOrd.eq_swap (a := size a) (b := size b)
  trans _ _ _ hab hbc := Nat.compare_ne_gt.mpr
    (Nat.le_trans (Nat.compare_ne_gt.mp hbc) (Nat.compare_ne_gt.mp hab))

/-- Sorting by size puts larger items in front of smaller ones. -/
theorem pairwise_sortBy {α : Type} (size : α → Nat) (xs : List α) :
    (sortBy (fun a b => compareOfLessAndEq (size b) (size a)) xs).Pairwise
      fun a b => size b ≤ size a :=
  (sortBy_pairwise (preorders_size size) fun _ _ => trivial).imp fun h =>
    Nat.compare_ne_gt.mp h

namespace Text

/-- A text is as long as its parts. -/
theorem byteLength_append (cs ds : List Char) :
    byteLength (cs ++ ds) = byteLength cs + byteLength ds := by
  induction cs with
  | nil => exact (Nat.zero_add _).symm
  | cons c cs ih =>
    change c.utf8Size + byteLength (cs ++ ds) = c.utf8Size + byteLength cs + byteLength ds
    rw [ih, Nat.add_assoc]

/-- Only the empty text has no length. -/
theorem eq_nil_of_byteLength {cs : List Char} (h : byteLength cs = 0) : cs = [] := by
  cases cs with
  | nil => rfl
  | cons c cs =>
    have hpos := c.utf8Size_pos
    have hsum : c.utf8Size + byteLength cs = 0 := h
    omega

/-- The pattern occurs in the text at its end only. -/
def OnlyAtEnd (p text : List Char) : Prop :=
  ∀ before after, text = before ++ p ++ after → after = []

/-- The pattern occurs at the end only if no place of the text further in front has it. -/
theorem onlyAtEnd_iff {p text : List Char} :
    OnlyAtEnd p text ↔
      ∀ i, i < text.length → p <+: text.drop i → text.length ≤ i + p.length := by
  constructor
  · rintro h i hi ⟨after, heq⟩
    have hnone := h (text.take i) after (by rw [List.append_assoc, heq, List.take_append_drop])
    have hlength := congrArg List.length heq
    rw [hnone, List.append_nil, List.length_drop] at hlength
    omega
  · rintro h before after rfl
    have hplace : p <+: (before ++ p ++ after).drop before.length := by
      rw [List.append_assoc, List.drop_left]
      exact List.prefix_append p after
    apply List.eq_nil_of_length_eq_zero
    by_cases hlt : before.length < (before ++ p ++ after).length
    · have hle := h before.length hlt hplace
      simp only [List.length_append] at hle
      omega
    · simp only [List.length_append] at hlt
      omega

instance (p text : List Char) : Decidable (OnlyAtEnd p text) :=
  decidable_of_iff _ onlyAtEnd_iff.symm

/-- In front of the end the pattern does not occur, whatever follows. -/
theorem OnlyAtEnd.stripStart?_eq_none {p cs : List Char} {c : Char}
    (h : OnlyAtEnd p (c :: cs ++ p)) (rest : List Char) :
    stripStart? p (c :: cs ++ p ++ rest) = none := by
  rw [Option.eq_none_iff_forall_ne_some]
  intro left hleft
  have heq := stripStart?_eq_some_iff.mp hleft
  obtain ⟨more, hmore, -⟩ | ⟨more, hmore, -⟩ := List.append_eq_append_iff.mp heq
  · have hlength := congrArg List.length hmore
    simp at hlength
    omega
  · obtain rfl := h [] more hmore
    have hlength := congrArg List.length hmore
    simp at hlength
    omega

/-- Without its first character the text has the pattern at its end only, still. -/
theorem OnlyAtEnd.tail {p cs : List Char} {c : Char} (h : OnlyAtEnd p (c :: cs)) :
    OnlyAtEnd p cs :=
  fun before after heq => h (c :: before) after (by rw [heq]; rfl)

/-- A text is split at its end if the pattern occurs there only. -/
theorem OnlyAtEnd.splitAt?_eq {p cs : List Char} (hp : p ≠ []) (h : OnlyAtEnd p (cs ++ p))
    (rest : List Char) : splitAt? p (cs ++ p ++ rest) = some (cs, rest) := by
  induction cs with
  | nil =>
    obtain ⟨c, more, rfl⟩ := List.exists_cons_of_ne_nil hp
    have hstrip : stripStart? (c :: more) (c :: (more ++ rest)) = some rest :=
      stripStart?_eq_some_iff.mpr rfl
    change splitAt? (c :: more) (c :: (more ++ rest)) = _
    rw [splitAt?, hstrip]
  | cons c cs ih =>
    have hhere := h.stripStart?_eq_none rest
    rw [List.cons_append, List.cons_append] at hhere ⊢
    rw [splitAt?, hhere, ih h.tail]
    rfl

end Text

/-- There are three kinds of regions. -/
theorem Marker.forall_iff {P : Marker → Prop} : (∀ m, P m) ↔ P .output ∧ P .tag ∧ P .comment := by
  refine ⟨fun h => ⟨h _, h _, h _⟩, ?_⟩
  rintro ⟨houtput, htag, hcomment⟩ m
  cases m <;> assumption

instance {P : Marker → Prop} [DecidablePred P] : Decidable (∀ m, P m) :=
  decidable_of_iff _ Marker.forall_iff.symm

/-- What holds of the characters of a text is found out from these, not from all characters. -/
instance Text.decidableForallMem {P : Char → Prop} [DecidablePred P] (text : List Char) :
    Decidable (∀ c ∈ text, P c) :=
  List.decidableBAll P text

namespace Controls

/-- The controls are accepted, and no delimiter has white space or a minus sign in it. -/
structure Plain (controls : Controls) : Prop where
  check : controls.check = .ok ()
  chars : ∀ m, ∀ c ∈ controls.opening m ++ controls.closing m, c ≠ '-' ∧ Text.isBlank c = false

/-- A pair that is accepted has no empty delimiter. -/
theorem checkPair_eq_ok {name : String} {d : Delimiters} (h : checkPair name d = .ok ()) :
    d.opening ≠ "" ∧ d.closing ≠ "" := by
  unfold checkPair at h
  split at h
  · cases h
  · next hne => exact not_or.mp hne

/-- Controls that are accepted have no empty delimiter. -/
theorem nonempty_of_check {controls : Controls} (h : controls.check = .ok ()) (m : Marker) :
    controls.opening m ≠ [] ∧ controls.closing m ≠ [] := by
  have hpairs : ∃ name, checkPair name (controls.of m) = .ok () := by
    unfold check at h
    obtain ⟨⟨⟩, houtput, h⟩ := Result.bind_eq_ok.mp h
    obtain ⟨⟨⟩, htag, h⟩ := Result.bind_eq_ok.mp h
    obtain ⟨⟨⟩, hcomment, -⟩ := Result.bind_eq_ok.mp h
    cases m with
    | output => exact ⟨_, houtput⟩
    | tag => exact ⟨_, htag⟩
    | comment => exact ⟨_, hcomment⟩
  obtain ⟨name, hpair⟩ := hpairs
  obtain ⟨hopening, hclosing⟩ := checkPair_eq_ok hpair
  exact ⟨fun h => hopening (String.toList_inj.mp h), fun h => hclosing (String.toList_inj.mp h)⟩

/-- Controls that are accepted have distinct opening delimiters. -/
theorem opening_injective {controls : Controls} (h : controls.check = .ok ()) {m m' : Marker}
    (heq : controls.opening m = controls.opening m') : m = m' := by
  have heq : (controls.of m).opening = (controls.of m').opening := String.toList_inj.mp heq
  unfold check at h
  obtain ⟨⟨⟩, -, h⟩ := Result.bind_eq_ok.mp h
  obtain ⟨⟨⟩, -, h⟩ := Result.bind_eq_ok.mp h
  obtain ⟨⟨⟩, -, h⟩ := Result.bind_eq_ok.mp h
  split at h
  · cases h
  · next hdistinct =>
    simp only [not_or] at hdistinct
    obtain ⟨houtputTag, houtputComment, htagComment⟩ := hdistinct
    cases m <;> cases m' <;> first
      | rfl
      | exact absurd heq houtputTag
      | exact absurd heq houtputComment
      | exact absurd heq htagComment
      | exact absurd heq.symm houtputTag
      | exact absurd heq.symm houtputComment
      | exact absurd heq.symm htagComment

variable {controls : Controls}

/-- Opening delimiters are tried from the longest one to the shortest one. -/
theorem pairwise_markersByLength (controls : Controls) :
    controls.markersByLength.Pairwise fun m m' =>
      Text.byteLength (controls.opening m') ≤ Text.byteLength (controls.opening m) :=
  pairwise_sortBy _ _

/-- All opening delimiters are tried. -/
theorem mem_markersByLength (controls : Controls) (m : Marker) : m ∈ controls.markersByLength := by
  refine (sortBy_perm _ _).mem_iff.mpr ?_
  cases m <;> simp

/-- A space is white space. -/
theorem Plain.space_notMem (h : controls.Plain) (m : Marker) : ' ' ∉ controls.opening m :=
  fun hmem => absurd (h.chars m ' ' (List.mem_append_left _ hmem)).2 (by decide)

/-- Of two opening delimiters in front of a text, where a character that is not in the other one
follows the one that is not longer, both are the same. -/
theorem eq_of_stripStart? (h : controls.check = .ok ()) {m m' : Marker} {c : Char}
    {rest left : List Char} (hc : c ∉ controls.opening m')
    (hle : Text.byteLength (controls.opening m) ≤ Text.byteLength (controls.opening m'))
    (hstrip : Text.stripStart? (controls.opening m') (controls.opening m ++ c :: rest) =
      some left) : m' = m := by
  apply opening_injective h
  rcases List.append_eq_append_iff.mp (Text.stripStart?_eq_some_iff.mp hstrip) with
    ⟨more, hmore, htail⟩ | ⟨more, hmore, -⟩
  · cases more with
    | nil => rw [hmore, List.append_nil]
    | cons d more =>
      obtain ⟨rfl, -⟩ := List.cons.inj htail
      exact absurd (hmore ▸ List.mem_append_right _ List.mem_cons_self) hc
  · rw [hmore, Text.byteLength_append] at hle
    have hnone : more = [] := Text.eq_nil_of_byteLength (by omega)
    rw [hmore, hnone, List.append_nil]

/-- An opening delimiter is recognised where a character follows that is in none. -/
theorem openAt?_of_notMem (h : controls.check = .ok ()) (m : Marker) {c : Char}
    (hc : ∀ m, c ∉ controls.opening m) (rest : List Char) :
    controls.openAt? (controls.opening m ++ c :: rest) = some (m, c :: rest) := by
  obtain ⟨before, after, hmarkers, hnew⟩ :=
    List.eq_append_cons_of_mem (controls.mem_markersByLength m)
  have hsorted := controls.pairwise_markersByLength
  rw [hmarkers] at hsorted
  have hbefore : before.findSome? (fun m' =>
      (Text.stripStart? (controls.opening m') (controls.opening m ++ c :: rest)).map
        fun left => (m', left)) = none := by
    rw [List.findSome?_eq_none_iff]
    intro m' hm'
    have hle := (List.pairwise_append.mp hsorted).2.2 m' hm' m List.mem_cons_self
    rw [Option.map_eq_none_iff, Option.eq_none_iff_forall_ne_some]
    intro left hleft
    exact hnew (eq_of_stripStart? h (hc m') hle hleft ▸ hm')
  have hhere : Text.stripStart? (controls.opening m) (controls.opening m ++ c :: rest) =
      some (c :: rest) := Text.stripStart?_eq_some_iff.mpr rfl
  rw [openAt?, hmarkers, List.findSome?_append, hbefore, List.findSome?_cons, hhere]
  rfl

/-- An opening delimiter with a space behind it is recognised. -/
theorem Plain.openAt?_eq (h : controls.Plain) (m : Marker) (rest : List Char) :
    controls.openAt? (controls.opening m ++ ' ' :: rest) = some (m, ' ' :: rest) :=
  openAt?_of_notMem h.check m h.space_notMem rest

/-- Plain controls are solid. -/
theorem Plain.solid (h : controls.Plain) : Lexer.Solid controls where
  opening m := by
    obtain ⟨c, cs, heq⟩ := List.exists_cons_of_ne_nil (nonempty_of_check h.check m).1
    exact ⟨c, cs, heq, (h.chars m c (by simp [heq])).2⟩
  closing m := (nonempty_of_check h.check m).2

/-- The first character of a closing delimiter is neither white space nor a minus sign. -/
theorem Plain.exists_closing (h : controls.Plain) (m : Marker) :
    ∃ c cs, controls.closing m = c :: cs ∧ c ≠ '-' ∧ Text.isAsciiBlank c = false := by
  obtain ⟨c, cs, heq⟩ := List.exists_cons_of_ne_nil (nonempty_of_check h.check m).2
  obtain ⟨hminus, hblank⟩ := h.chars m c (by simp [heq])
  refine ⟨c, cs, heq, hminus, ?_⟩
  rw [Bool.eq_false_iff] at hblank ⊢
  exact fun hascii => hblank (Text.isBlank_of_isAsciiBlank hascii)

end Controls

namespace Lexer

variable {controls : Controls}

/-- A tag of one word between spaces is recognised, with no minus sign. -/
theorem simpleTag?_eq (h : controls.Plain) {c : Char} {cs : List Char}
    (hword : Text.isAsciiBlank c = false) (rest : List Char) :
    simpleTag? (c :: cs) (controls.closing .tag)
        (' ' :: c :: cs ++ ' ' :: controls.closing .tag ++ rest) =
      some ((' ' :: c :: cs ++ ' ' :: controls.closing .tag).length, false) := by
  obtain ⟨d, ds, hclosing, hminus, hblank⟩ := h.exists_closing .tag
  let tail := controls.closing .tag ++ rest
  have htail : tail = d :: (ds ++ rest) := by rw [← List.cons_append, ← hclosing]
  have hname : (' ' :: c :: cs ++ ' ' :: tail).dropWhile Text.isAsciiBlank =
      c :: cs ++ ' ' :: tail := by
    rw [List.cons_append, List.dropWhile_cons_of_pos (by decide), List.cons_append,
      List.dropWhile_cons_of_neg (by simp [hword])]
  have hbehind : (' ' :: tail).dropWhile Text.isAsciiBlank = tail := by
    rw [List.dropWhile_cons_of_pos (by decide), htail,
      List.dropWhile_cons_of_neg (by simp [hblank])]
  have hnone : minusLength tail = 0 := by
    rw [htail]
    exact minusLength.eq_2 _ fun _ heq => hminus (List.cons.inj heq).1
  have hstrip : Text.stripStart? (c :: cs) (c :: cs ++ ' ' :: tail) = some (' ' :: tail) :=
    Text.stripStart?_eq_some_iff.mpr rfl
  have hclose : Text.stripStart? (controls.closing .tag) tail = some rest :=
    Text.stripStart?_eq_some_iff.mpr rfl
  have hfront : minusLength (' ' :: c :: cs ++ ' ' :: tail) = 0 := rfl
  have hwhole : ' ' :: c :: cs ++ ' ' :: controls.closing .tag ++ rest =
      ' ' :: c :: cs ++ ' ' :: tail := by simp [tail]
  rw [hwhole, simpleTag?, hfront, List.drop_zero, hname, hstrip]
  simp only [Option.bind_eq_bind, Option.bind_some, hbehind, hnone, List.drop_zero, hclose]
  have hlength : (' ' :: c :: cs ++ ' ' :: tail).length - rest.length =
      (' ' :: c :: cs ++ ' ' :: controls.closing .tag).length := by
    rw [← hwhole, List.length_append, Nat.add_sub_cancel]
  rw [hlength]
  rfl

/-- A raw block ends at the first opening delimiter of a tag, if an end tag stands there. -/
theorem findRawEnd?_of_end {opening closing content inner : List Char} {length : Nat} {after : Bool}
    (hopening : opening ≠ []) (honly : Text.OnlyAtEnd opening (content ++ opening))
    (hend : simpleTag? "endraw".toList closing inner = some (length, after)) (before : Nat) :
    findRawEnd? opening closing 0 before (content ++ opening ++ inner) =
      some (before + content.length, opening.length + length, minusLength inner == 1, after) := by
  induction content generalizing before with
  | nil =>
    obtain ⟨c, cs, rfl⟩ := List.exists_cons_of_ne_nil hopening
    have hstrip : Text.stripStart? (c :: cs) (c :: (cs ++ inner)) = some inner :=
      Text.stripStart?_eq_some_iff.mpr rfl
    rw [List.nil_append, List.cons_append, findRawEnd?, hstrip]
    dsimp only
    rw [hend]
    rfl
  | cons c cs ih =>
    have hhere := honly.stripStart?_eq_none inner
    have hlater := ih honly.tail (before + 1)
    rw [List.cons_append, List.cons_append] at hhere ⊢
    rw [findRawEnd?, hhere]
    dsimp only
    rw [hlater, List.length_cons, Nat.add_right_comm, Nat.add_assoc]

/-- A raw block ends at the first opening delimiter of a tag, if an end tag between spaces stands
there. -/
theorem findRawEnd?_eq (h : controls.Plain) {content : List Char}
    (honly : Text.OnlyAtEnd (controls.opening .tag) (content ++ controls.opening .tag))
    (rest : List Char) (before : Nat) :
    findRawEnd? (controls.opening .tag) (controls.closing .tag) 0 before
        (content ++ controls.opening .tag ++
          (' ' :: "endraw".toList ++ ' ' :: controls.closing .tag ++ rest)) =
      some (before + content.length, (controls.opening .tag ++
        (' ' :: "endraw".toList ++ ' ' :: controls.closing .tag)).length, false, false) := by
  have hend : simpleTag? "endraw".toList (controls.closing .tag)
      (' ' :: "endraw".toList ++ ' ' :: controls.closing .tag ++ rest) =
        some ((' ' :: "endraw".toList ++ ' ' :: controls.closing .tag).length, false) :=
    simpleTag?_eq h (by decide) rest
  have hlength : (controls.opening .tag ++
      (' ' :: "endraw".toList ++ ' ' :: controls.closing .tag)).length =
        (controls.opening .tag).length +
          (' ' :: "endraw".toList ++ ' ' :: controls.closing .tag).length := List.length_append
  rw [findRawEnd?_of_end (Controls.nonempty_of_check h.check .tag).1 honly hend before, hlength]
  rfl

end Lexer

end Templating
