import Templating.Proofs.Json.Numbers

/-!
# Spellings of a document are read as the document

A document can be written in many ways: white space is allowed around every token. `Spells` says
which texts spell a document whose scalars are written in the one way this library writes them, and
every such text is read as the document, provided that the numbers in it are read back. Both layouts
of the writer are spellings, so the reader needs to be compared with the writer only once.
-/

namespace Templating.Json

/-- Nothing but white space. -/
def IsGap (cs : List Char) : Prop := ∀ c ∈ cs, isSpace c = true

/-- A text with white space around it. -/
def Padded (text : List Char → Prop) (cs : List Char) : Prop :=
  ∃ before inner after, cs = before ++ inner ++ after ∧ IsGap before ∧ IsGap after ∧ text inner

/-- A name in quotes, a colon and a text, with white space around both. -/
def Labelled (name : String) (text : List Char → Prop) (cs : List Char) : Prop :=
  ∃ head tail, cs = head ++ ':' :: tail ∧ Padded (· = (quoted name).toList) head ∧ Padded text tail

mutual

/-- The text spells the document. -/
def Spells : Json → List Char → Prop
  | null => fun cs => cs = (scalarText null).toList
  | bool b => fun cs => cs = (scalarText (bool b)).toList
  | int n => fun cs => cs = (scalarText (int n)).toList
  | float x => fun cs => cs = (scalarText (float x)).toList
  | text s => fun cs => cs = (scalarText (text s)).toList
  | array items => fun cs => ∃ inner, cs = '[' :: inner ++ [']'] ∧ SpellsItems items inner
  | object members => fun cs => ∃ inner, cs = '{' :: inner ++ ['}'] ∧ SpellsMembers members inner

/-- The text spells the items, with a comma between any two. -/
def SpellsItems : List Json → List Char → Prop
  | [] => IsGap
  | [j] => Padded (Spells j)
  | j :: k :: rest => fun cs => ∃ first more, cs = first ++ ',' :: more ∧ Padded (Spells j) first ∧
      SpellsItems (k :: rest) more

/-- The text spells the members, with a comma between any two. -/
def SpellsMembers : List (String × Json) → List Char → Prop
  | [] => IsGap
  | [(name, j)] => Labelled name (Spells j)
  | (name, j) :: m :: rest => fun cs => ∃ first more, cs = first ++ ',' :: more ∧
      Labelled name (Spells j) first ∧ SpellsMembers (m :: rest) more

end

mutual

/-- The scalars of a document, from left to right. -/
def scalars : Json → List Json
  | null => [null]
  | bool b => [bool b]
  | int n => [int n]
  | float x => [float x]
  | text s => [text s]
  | array items => scalarsOfItems items
  | object members => scalarsOfMembers members

/-- The scalars of all items. -/
def scalarsOfItems : List Json → List Json
  | [] => []
  | j :: rest => scalars j ++ scalarsOfItems rest

/-- The scalars of all members. -/
def scalarsOfMembers : List (String × Json) → List Json
  | [] => []
  | (_, j) :: rest => scalars j ++ scalarsOfMembers rest

end

/-- The floats of a document, from left to right. -/
def floats (j : Json) : List Float :=
  j.scalars.filterMap fun
    | float x => some x
    | _ => none

/-- The floats are scalars. -/
theorem mem_floats {j : Json} {x : Float} : x ∈ j.floats ↔ float x ∈ j.scalars := by
  rw [floats, List.mem_filterMap]
  constructor
  · rintro ⟨k, hk, hx⟩
    cases k <;> simp_all
  · exact fun h => ⟨float x, h, rfl⟩

/-- Every number of the document is read back: its integers fit into 64 bits, and its floats are
told apart by their text. -/
structure IsReadable (j : Json) : Prop where
  ints : ∀ n, int n ∈ j.scalars → FitsWord n
  floats : ∀ x, float x ∈ j.scalars → ReadsBack x

/-- The scalars of an array are those of its items. -/
@[simp]
theorem scalars_array (items : List Json) : (array items).scalars = items.flatMap scalars := by
  have h : ∀ items : List Json, scalarsOfItems items = items.flatMap scalars := by
    intro items
    induction items with
    | nil => rfl
    | cons j rest ih => rw [scalarsOfItems, ih, List.flatMap_cons]
  rw [scalars, h]

/-- The scalars of an object are those of its members. -/
@[simp]
theorem scalars_object (members : List (String × Json)) :
    (object members).scalars = members.flatMap fun m => m.2.scalars := by
  have h : ∀ members : List (String × Json),
      scalarsOfMembers members = members.flatMap fun m => m.2.scalars := by
    intro members
    induction members with
    | nil => rfl
    | cons m rest ih => rw [scalarsOfMembers, ih, List.flatMap_cons]
  rw [scalars, h]

/-- The scalars of an item are scalars of the array. -/
theorem mem_scalars_of_item {items : List Json} {j k : Json} (hj : j ∈ items)
    (hk : k ∈ j.scalars) : k ∈ (array items).scalars := by
  rw [scalars_array]
  exact List.mem_flatMap_of_mem hj hk

/-- The scalars of a member are scalars of the object. -/
theorem mem_scalars_of_member {members : List (String × Json)} {m : String × Json} {k : Json}
    (hm : m ∈ members) (hk : k ∈ m.2.scalars) : k ∈ (object members).scalars := by
  rw [scalars_object]
  exact List.mem_flatMap_of_mem (f := fun m => m.2.scalars) hm hk

/-- The items of a readable array are readable. -/
theorem IsReadable.item {items : List Json} (h : (array items).IsReadable) {j : Json}
    (hj : j ∈ items) : j.IsReadable where
  ints := fun n hn => h.ints n (mem_scalars_of_item hj hn)
  floats := fun x hx => h.floats x (mem_scalars_of_item hj hx)

/-- The members of a readable object are readable. -/
theorem IsReadable.member {members : List (String × Json)} (h : (object members).IsReadable)
    {m : String × Json} (hm : m ∈ members) : m.2.IsReadable where
  ints := fun n hn => h.ints n (mem_scalars_of_member hm hn)
  floats := fun x hx => h.floats x (mem_scalars_of_member hm hx)

/-! ### White space -/

section

variable {cs gap rest : List Char} {c : Char}

/-- White space in front is dropped. -/
theorem skipSpace_append (h : IsGap gap) : skipSpace (gap ++ cs) = skipSpace cs :=
  List.dropWhile_append_of_pos h

/-- White space does not belong to a number. -/
theorem isNumberChar_of_isSpace (h : isSpace c = true) : isNumberChar c = false := by
  simp only [isSpace, Bool.or_eq_true, beq_iff_eq] at h
  rcases h with ((rfl | rfl) | rfl) | rfl <;> decide

/-- A character that cannot be part of a number ends it. -/
theorem EndsNumber.cons (h : isNumberChar c = false) : EndsNumber (c :: rest) := by
  intro d hd
  obtain rfl := Option.some.inj hd
  exact h

/-- White space does not begin with a part of a number, nor does what follows it. -/
theorem EndsNumber.append (h : IsGap gap) (hrest : EndsNumber rest) : EndsNumber (gap ++ rest) := by
  cases gap with
  | nil => exact hrest
  | cons c gap => exact .cons (isNumberChar_of_isSpace (h c List.mem_cons_self))

end

/-! ### Strings -/

/-- The four digits of a control character are read as its number, which is no surrogate. -/
theorem fourDigits?_lowerHex {n : Nat} (h : n < 32) :
    fourDigits? '0' '0' (lowerHex (n / 16)) (lowerHex (n % 16)) = some n ∧
      Text.isSurrogate n = false := by
  revert n
  decide

/-- A character that was written inside a string is read as this character. -/
theorem stringRest?_escapeChar (c : Char) (rest : List Char) :
    stringRest? (escapeChar c ++ rest) =
      (stringRest? rest).map fun (s, tail) => (c :: s, tail) := by
  unfold escapeChar
  -- the characters with an escape of one letter
  iterate 7 (split; · subst_vars; rfl)
  split
  · next hcontrol =>
    obtain ⟨hdigits, hsurrogate⟩ := fourDigits?_lowerHex hcontrol
    simp only [List.cons_append, List.nil_append]
    rw [stringRest?, hdigits]
    simp [hsurrogate, Char.ofNat_toNat]
  · next hquote hslash _ _ _ _ _ hcontrol =>
    simp only [List.cons_append, List.nil_append]
    rw [stringRest?.eq_def]
    split
    · contradiction
    · next heq => exact absurd (List.cons.inj heq).1 hquote
    · next heq => exact absurd (List.cons.inj heq).1 hslash
    · next heq => exact absurd (List.cons.inj heq).1 hslash
    · next heq =>
      obtain ⟨rfl, rfl⟩ := List.cons.inj heq
      rw [if_neg (not_or.mpr ⟨hslash, hcontrol⟩)]

/-- The characters of a string are read up to its closing quote. -/
theorem stringRest?_flatMap (cs rest : List Char) :
    stringRest? (cs.flatMap escapeChar ++ '"' :: rest) = some (cs, rest) := by
  induction cs with
  | nil => rfl
  | cons c cs ih => rw [List.flatMap_cons, List.append_assoc, stringRest?_escapeChar, ih]; rfl

/-- The characters of a string in quotes. -/
theorem toList_quoted (s : String) :
    (quoted s).toList = '"' :: (s.toList.flatMap escapeChar ++ ['"']) := by
  simp [quoted]

/-! ### Single tokens -/

section

variable {bound : Nat} {cs rest : List Char}

/-- A string is read behind its opening quote. -/
theorem value?_quote (h : skipSpace cs = '"' :: rest) :
    value? (bound + 1) cs =
      (stringRest? rest).map fun (s, tail) => (text (String.ofList s), tail) := by
  simp only [value?, h]

/-- An array without items ends behind its opening bracket. -/
theorem value?_array_nil {inner : List Char} (h : skipSpace cs = '[' :: inner)
    (hinner : skipSpace inner = ']' :: rest) :
    value? (bound + 1) cs = some (array [], rest) := by
  simp only [value?, h, hinner]

/-- The items of an array are read behind its opening bracket. -/
theorem value?_array_cons {inner : List Char} {c : Char} (h : skipSpace cs = '[' :: inner)
    (hinner : skipSpace inner = c :: rest) (hc : c ≠ ']') :
    value? (bound + 1) cs = (items? bound inner).map fun (items, tail) => (array items, tail) := by
  rw [← items?_skipSpace, value?, h]
  simp only [hinner]
  split
  · next heq => exact absurd (List.cons.inj heq).1 hc
  · rfl

/-- An object without members ends behind its opening brace. -/
theorem value?_object_nil {inner : List Char} (h : skipSpace cs = '{' :: inner)
    (hinner : skipSpace inner = '}' :: rest) :
    value? (bound + 1) cs = some (object [], rest) := by
  simp only [value?, h, hinner]

/-- The members of an object are read behind its opening brace. -/
theorem value?_object_cons {inner : List Char} {c : Char} (h : skipSpace cs = '{' :: inner)
    (hinner : skipSpace inner = c :: rest) (hc : c ≠ '}') :
    value? (bound + 1) cs =
      (members? bound inner).map fun (members, tail) => (object members, tail) := by
  rw [← members?_skipSpace, value?, h]
  simp only [hinner]
  split
  · next heq => exact absurd (List.cons.inj heq).1 hc
  · rfl

/-- A character of a number is not white space. -/
theorem isSpace_of_isNumberChar {c : Char} (h : isNumberChar c = true) : isSpace c = false := by
  cases hs : isSpace c with
  | false => rfl
  | true => rw [isNumberChar_of_isSpace hs] at h; exact absurd h Bool.false_ne_true

/-- The characters of a number go as far as what follows them. -/
theorem takeWhile_numeral (hcs : ∀ c ∈ cs, isNumberChar c = true) (hrest : EndsNumber rest) :
    (cs ++ rest).takeWhile isNumberChar = cs ∧ (cs ++ rest).dropWhile isNumberChar = rest := by
  rw [List.takeWhile_append_of_pos hcs, List.dropWhile_append_of_pos hcs]
  cases rest with
  | nil => simp
  | cons c rest => simp [hrest c rfl]

/-- A number is read behind its minus sign. -/
theorem value?_minus (bound : Nat) (hcs : IsNumeral cs) (hrest : EndsNumber rest) :
    value? (bound + 1) ('-' :: cs ++ rest) = (number? true cs).map fun j => (j, rest) := by
  obtain ⟨htake, hdrop⟩ := takeWhile_numeral hcs.all hrest
  have hskip : skipSpace ('-' :: cs ++ rest) = '-' :: (cs ++ rest) := skipSpace_cons (by decide)
  simp only [value?, hskip, htake, hdrop]

/-- A number without a sign is read from its first digit on. -/
theorem value?_digit (bound : Nat) (hcs : IsNumeral cs) (hrest : EndsNumber rest) :
    value? (bound + 1) (cs ++ rest) = (number? false cs).map fun j => (j, rest) := by
  obtain ⟨htake, hdrop⟩ := takeWhile_numeral hcs.all hrest
  obtain ⟨c, more, rfl, hc⟩ := hcs.first
  have hskip : skipSpace (c :: more ++ rest) = c :: more ++ rest :=
    skipSpace_cons (isSpace_of_isNumberChar (isNumberChar_of_isDigit hc))
  -- a digit is none of the characters that begin another token
  have hne : ∀ d : Char, Number.isDigit d = false → c ≠ d := by
    rintro d hd rfl
    rw [hc] at hd
    exact absurd hd (by decide)
  rw [value?, hskip]
  split
  case h_8 => rw [htake, hdrop]
  all_goals
    next heq => exact absurd (List.cons.inj heq).1 (hne _ (by decide))

/-- The text of a number is read as the number. -/
theorem value?_number {j : Json} {text : List Char} (h : IsNumberText j text)
    (hrest : EndsNumber rest) : value? (bound + 1) (text ++ rest) = some (j, rest) := by
  obtain ⟨negative, cs, rfl, hcs, hnumber⟩ := h
  cases negative with
  | false =>
    rw [if_neg Bool.false_ne_true, List.nil_append, value?_digit bound hcs hrest, hnumber]
    rfl
  | true =>
    rw [if_pos rfl, List.singleton_append, value?_minus bound hcs hrest, hnumber]
    rfl

end

/-- A float that reads back is written as a number that is read as this float. -/
theorem ReadsBack.isNumberText {x : Float} (h : ReadsBack x) :
    IsNumberText (float x) (Number.floatText .json x).toList := by
  have hnothing : EndsNumber [] := fun c hc => by simp at hc
  rcases floatText_eq x with ⟨negative, cs, hcs, htext⟩ | hnull
  · refine ⟨negative, cs, htext, hcs, ?_⟩
    have hvalue : ∀ bound, value? (bound + 1) ((if negative then ['-'] else []) ++ cs) =
        (number? negative cs).map fun j => (j, []) := by
      intro bound
      cases negative with
      | false => simpa using value?_digit bound hcs hnothing
      | true => simpa using value?_minus bound hcs hnothing
    rw [ReadsBack, htext, read?, hvalue] at h
    cases hnumber : number? negative cs with
    | none => rw [hnumber] at h; exact absurd h (by simp)
    | some j => rw [hnumber] at h; simpa [skipSpace] using h
  · rw [ReadsBack, hnull] at h
    exact absurd h (by simp [read?, value?, skipSpace, isSpace])

/-! ### Documents -/

/-- A spelling begins with a token, and with none that closes an array or an object. -/
theorem Spells.first {j : Json} {text : List Char} (h : j.Spells text) (hj : j.IsReadable) :
    ∃ c rest, text = c :: rest ∧ isSpace c = false ∧ c ≠ ']' ∧ c ≠ '}' := by
  -- digits and the minus sign are neither white space nor brackets
  have hnumber : ∀ {j : Json} {text : List Char}, IsNumberText j text →
      ∃ c rest, text = c :: rest ∧ isSpace c = false ∧ c ≠ ']' ∧ c ≠ '}' := by
    rintro j text ⟨negative, cs, rfl, hcs, -⟩
    have hall : ∀ c, isNumberChar c = true → isSpace c = false ∧ c ≠ ']' ∧ c ≠ '}' := by
      intro c hc
      refine ⟨isSpace_of_isNumberChar hc, ?_, ?_⟩
      all_goals
        rintro rfl
        exact absurd hc (by decide)
    cases negative with
    | true => exact ⟨'-', cs, rfl, hall '-' (by decide)⟩
    | false =>
      obtain ⟨c, rest, rfl, hc⟩ := hcs.first
      exact ⟨c, rest, rfl, hall c (isNumberChar_of_isDigit hc)⟩
  cases j with
  | null => exact ⟨'n', ['u', 'l', 'l'], h, by decide⟩
  | bool b =>
    cases b with
    | true => exact ⟨'t', ['r', 'u', 'e'], h, by decide⟩
    | false => exact ⟨'f', ['a', 'l', 's', 'e'], h, by decide⟩
  | int n =>
    exact hnumber (h ▸ intText_isNumberText (hj.ints n (by simp [scalars])))
  | float x => exact hnumber (h ▸ (hj.floats x (by simp [scalars])).isNumberText)
  | text s => exact ⟨'"', _, h.trans (toList_quoted s), by decide⟩
  | array items =>
    obtain ⟨inner, rfl, -⟩ := h
    exact ⟨'[', inner ++ [']'], rfl, by decide⟩
  | object members =>
    obtain ⟨inner, rfl, -⟩ := h
    exact ⟨'{', inner ++ ['}'], rfl, by decide⟩

/-- A padded text is read as what it surrounds. -/
theorem value?_padded {bound : Nat} {j : Json} {cs : List Char} (rest : List Char)
    (h : Padded j.Spells cs) (hrest : EndsNumber rest)
    (hread : ∀ {text after}, j.Spells text → text.length ≤ cs.length → EndsNumber after →
      value? bound (text ++ after) = some (j, after)) :
    ∃ after, IsGap after ∧ value? bound (cs ++ rest) = some (j, after ++ rest) := by
  obtain ⟨before, text, after, rfl, hbefore, hafter, htext⟩ := h
  refine ⟨after, hafter, ?_⟩
  have hlength : text.length ≤ (before ++ text ++ after).length := by
    simp only [List.length_append]
    omega
  rw [List.append_assoc, List.append_assoc, ← value?_skipSpace, skipSpace_append hbefore,
    value?_skipSpace]
  exact hread htext hlength (.append hafter hrest)

/-- The first token of a padded spelling. -/
theorem skipSpace_padded {j : Json} {cs : List Char} (rest : List Char) (h : Padded j.Spells cs)
    (hj : j.IsReadable) : ∃ c more, skipSpace (cs ++ rest) = c :: more ∧ c ≠ ']' ∧ c ≠ '}' := by
  obtain ⟨before, text, after, rfl, hbefore, -, htext⟩ := h
  obtain ⟨c, more, rfl, hc, hne⟩ := htext.first hj
  refine ⟨c, more ++ (after ++ rest), ?_, hne⟩
  rw [List.append_assoc, List.append_assoc, skipSpace_append hbefore]
  exact skipSpace_cons hc

/-- The first token of some items. -/
theorem SpellsItems.first {j : Json} {items : List Json} {inner : List Char} (rest : List Char)
    (h : SpellsItems (j :: items) inner) (hj : j.IsReadable) :
    ∃ c more, skipSpace (inner ++ rest) = c :: more ∧ c ≠ ']' ∧ c ≠ '}' := by
  cases items with
  | nil => exact skipSpace_padded rest h hj
  | cons k items =>
    obtain ⟨first, more, rfl, hfirst, -⟩ := h
    rw [List.append_assoc]
    exact skipSpace_padded _ hfirst hj

/-- White space before a token is dropped. -/
theorem skipSpace_token {gap rest : List Char} {c : Char} (hgap : IsGap gap)
    (hc : isSpace c = false) : skipSpace (gap ++ c :: rest) = c :: rest := by
  rw [skipSpace_append hgap, skipSpace_cons hc]

/-- What stands between brackets begins behind the opening one. -/
theorem skipSpace_enclosed (left right : Char) (inner rest : List Char)
    (hleft : isSpace left = false) :
    skipSpace (left :: inner ++ [right] ++ rest) = left :: (inner ++ right :: rest) := by
  have hskip : skipSpace (left :: (inner ++ right :: rest)) = left :: (inner ++ right :: rest) :=
    skipSpace_cons hleft
  simpa using hskip

/-- A name of a member is read up to its closing quote. -/
theorem skipSpace_name {name : String} {head : List Char} (rest : List Char)
    (h : Padded (· = (quoted name).toList) head) :
    ∃ after, IsGap after ∧ skipSpace (head ++ rest) =
        '"' :: (name.toList.flatMap escapeChar ++ '"' :: (after ++ rest)) := by
  obtain ⟨before, text, after, rfl, hbefore, hafter, rfl⟩ := h
  refine ⟨after, hafter, ?_⟩
  rw [toList_quoted, List.append_assoc, List.append_assoc, List.cons_append,
    skipSpace_token hbefore (by decide)]
  simp

/-- The first token of a member. -/
theorem skipSpace_labelled {name : String} {text : List Char → Prop} {cs : List Char}
    (rest : List Char) (h : Labelled name text cs) :
    ∃ more, skipSpace (cs ++ rest) = '"' :: more := by
  obtain ⟨head, tail, rfl, hhead, -⟩ := h
  obtain ⟨after, -, hskip⟩ := skipSpace_name (':' :: tail ++ rest) hhead
  exact ⟨_, by rw [List.append_assoc, hskip]⟩

/-- The first token of some members. -/
theorem SpellsMembers.first {m : String × Json} {members : List (String × Json)}
    {inner : List Char} (rest : List Char) (h : SpellsMembers (m :: members) inner) :
    ∃ more, skipSpace (inner ++ rest) = '"' :: more := by
  cases members with
  | nil => exact skipSpace_labelled rest h
  | cons k members =>
    obtain ⟨first, more, rfl, hfirst, -⟩ := h
    rw [List.append_assoc]
    exact skipSpace_labelled _ hfirst

/-- A member is read up to what follows its value: further members, or the end of the object. -/
theorem members?_labelled {bound : Nat} {name : String} {j : Json} {cs : List Char}
    (rest : List Char) (h : Labelled name j.Spells cs) (hrest : EndsNumber rest)
    (hread : ∀ {text after}, j.Spells text → text.length ≤ cs.length → EndsNumber after →
      value? bound (text ++ after) = some (j, after)) :
    ∃ after, IsGap after ∧
      (∀ {more}, skipSpace (after ++ rest) = ',' :: more → members? (bound + 1) (cs ++ rest) =
        (members? bound more).map fun (members, tail) => ((name, j) :: members, tail)) ∧
      (∀ {tail}, skipSpace (after ++ rest) = '}' :: tail →
        members? (bound + 1) (cs ++ rest) = some ([(name, j)], tail)) := by
  obtain ⟨head, tail, rfl, hhead, htail⟩ := h
  obtain ⟨gap, hgap, hname⟩ := skipSpace_name (':' :: (tail ++ rest)) hhead
  obtain ⟨after, hafter, hvalue⟩ := value?_padded rest htail hrest fun htext hle =>
    hread htext (by simp only [List.length_append, List.length_cons]; omega)
  have hcolon : skipSpace (gap ++ ':' :: (tail ++ rest)) = ':' :: (tail ++ rest) :=
    skipSpace_token hgap (by decide)
  refine ⟨after, hafter, fun {more} hnext => ?_, fun {last} hend => ?_⟩
  · rw [members?, List.append_assoc, List.cons_append, hname]
    simp only [stringRest?_flatMap, hcolon, hvalue, String.ofList_toList, hnext]
  · rw [members?, List.append_assoc, List.cons_append, hname]
    simp only [stringRest?_flatMap, hcolon, hvalue, String.ofList_toList, hend]

mutual

/-- Every spelling of a readable document is read as the document. -/
theorem value?_of_spells : ∀ (bound : Nat) {j : Json} {text rest : List Char}, j.Spells text →
    j.IsReadable → text.length < bound → EndsNumber rest →
      value? bound (text ++ rest) = some (j, rest)
  | 0, _, _, _, _, _, hlength, _ => absurd hlength (Nat.not_lt_zero _)
  | bound + 1, null, _, rest, rfl, _, _, _ => by
    simp [value?, scalarText, skipSpace, isSpace]
  | bound + 1, bool true, _, rest, rfl, _, _, _ => by
    simp [value?, scalarText, skipSpace, isSpace]
  | bound + 1, bool false, _, rest, rfl, _, _, _ => by
    simp [value?, scalarText, skipSpace, isSpace]
  | bound + 1, int n, _, rest, rfl, hj, _, hrest =>
    value?_number (intText_isNumberText (hj.ints n (by simp [scalars]))) hrest
  | bound + 1, float x, _, rest, rfl, hj, _, hrest =>
    value?_number (hj.floats x (by simp [scalars])).isNumberText hrest
  | bound + 1, text s, _, rest, rfl, _, _, _ => by
    have hskip : skipSpace ((scalarText (text s)).toList ++ rest) =
        '"' :: (s.toList.flatMap escapeChar ++ '"' :: rest) := by
      rw [scalarText, toList_quoted, List.cons_append, skipSpace_cons (by decide)]
      simp
    rw [value?_quote hskip, stringRest?_flatMap]
    simp
  | bound + 1, array [], _, rest, ⟨inner, htext, hinner⟩, _, _, _ => by
    subst htext
    have hskip := skipSpace_enclosed '[' ']' inner rest (by decide)
    exact value?_array_nil hskip (skipSpace_token hinner (by decide))
  | bound + 1, array (j :: items), _, rest, ⟨inner, htext, hinner⟩, hj, hlength, _ => by
    subst htext
    have hskip := skipSpace_enclosed '[' ']' inner rest (by decide)
    obtain ⟨c, more, hfirst, hc⟩ := hinner.first (']' :: rest) (hj.item (by simp))
    rw [value?_array_cons hskip hfirst hc.1,
      items?_of_spells bound hinner (fun k hk => hj.item hk) (by simp at hlength; omega)]
    rfl
  | bound + 1, object [], _, rest, ⟨inner, htext, hinner⟩, _, _, _ => by
    subst htext
    have hskip := skipSpace_enclosed '{' '}' inner rest (by decide)
    exact value?_object_nil hskip (skipSpace_token hinner (by decide))
  | bound + 1, object (m :: members), _, rest, ⟨inner, htext, hinner⟩, hj, hlength, _ => by
    subst htext
    have hskip := skipSpace_enclosed '{' '}' inner rest (by decide)
    obtain ⟨more, hfirst⟩ := hinner.first ('}' :: rest)
    rw [value?_object_cons hskip hfirst (by decide),
      members?_of_spells bound hinner (fun k hk => hj.member hk) (by simp at hlength; omega)]
    rfl

/-- Every spelling of readable items is read as the items. -/
theorem items?_of_spells : ∀ (bound : Nat) {j : Json} {items : List Json} {inner tail : List Char},
    SpellsItems (j :: items) inner → (∀ k ∈ j :: items, k.IsReadable) →
      inner.length + 1 < bound → items? bound (inner ++ ']' :: tail) = some (j :: items, tail)
  | 0, _, _, _, _, _, _, hlength => absurd hlength (Nat.not_lt_zero _)
  | bound + 1, j, [], inner, tail, hinner, hread, hlength => by
    obtain ⟨after, hafter, hvalue⟩ := value?_padded (']' :: tail) hinner
      (.cons (by decide))
      fun htext hle hrest => value?_of_spells bound htext (hread j (by simp)) (by omega) hrest
    rw [items?, hvalue]
    simp only [skipSpace_token hafter (show isSpace ']' = false by decide)]
  | bound + 1, j, k :: items, _, tail, ⟨first, more, hinner, hfirst, hmore⟩, hread, hlength => by
    subst hinner
    simp only [List.length_append, List.length_cons] at hlength
    obtain ⟨after, hafter, hvalue⟩ := value?_padded (',' :: more ++ ']' :: tail) hfirst
      (.cons (by decide))
      fun htext hle hrest => value?_of_spells bound htext (hread j (by simp)) (by omega) hrest
    have hitems : items? bound (more ++ ']' :: tail) = some (k :: items, tail) :=
      items?_of_spells bound hmore (fun i hi => hread i (List.mem_cons_of_mem j hi)) (by omega)
    rw [items?, List.append_assoc, hvalue]
    simp only [List.cons_append, skipSpace_token hafter (show isSpace ',' = false by decide),
      hitems, Option.map_some]

/-- Every spelling of readable members is read as the members. -/
theorem members?_of_spells : ∀ (bound : Nat) {m : String × Json} {members : List (String × Json)}
    {inner tail : List Char}, SpellsMembers (m :: members) inner →
      (∀ k ∈ m :: members, k.2.IsReadable) → inner.length + 1 < bound →
        members? bound (inner ++ '}' :: tail) = some (m :: members, tail)
  | 0, _, _, _, _, _, _, hlength => absurd hlength (Nat.not_lt_zero _)
  | bound + 1, (name, j), [], inner, tail, hinner, hread, hlength => by
    obtain ⟨after, hafter, -, hend⟩ :=
      members?_labelled ('}' :: tail) hinner (.cons (by decide)) fun htext hle hrest =>
        value?_of_spells bound htext (hread (name, j) (by simp)) (by omega) hrest
    exact hend (skipSpace_token hafter (by decide))
  | bound + 1, (name, j), m :: members, _, tail, ⟨first, more, hinner, hfirst, hmore⟩, hread,
      hlength => by
    subst hinner
    simp only [List.length_append, List.length_cons] at hlength
    obtain ⟨after, hafter, hnext, -⟩ := members?_labelled
      (',' :: (more ++ '}' :: tail)) hfirst (.cons (by decide)) fun htext hle hrest =>
        value?_of_spells bound htext (hread (name, j) (by simp)) (by omega) hrest
    have hrest : members? bound (more ++ '}' :: tail) = some (m :: members, tail) :=
      members?_of_spells bound hmore (fun k hk => hread k (List.mem_cons_of_mem _ hk)) (by omega)
    rw [List.append_assoc, List.cons_append, hnext (skipSpace_token hafter (by decide)), hrest,
      Option.map_some]

end

/-- A text that spells a readable document is read as the document. -/
theorem read?_of_spells {j : Json} {text : List Char} (h : j.Spells text) (hj : j.IsReadable) :
    read? text = some j := by
  have hvalue : value? (2 * text.length + 2) (text ++ []) = some (j, []) :=
    value?_of_spells _ h hj (by omega) fun c hc => by simp at hc
  rw [List.append_nil] at hvalue
  rw [read?, hvalue]
  rfl

end Templating.Json
