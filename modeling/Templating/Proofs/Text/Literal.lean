import Mathlib.Tactic.ByContra
import Mathlib.Tactic.SplitIfs
import Templating.Template.Lexer

/-!
# What the bodies of string literals stand for

The body of a string literal is a row of characters and escapes. The grammar of such rows is written
down as the relation `Denotes` between a body and the text it stands for, and the reader of bodies
finds a text exactly when the grammar has one. The relation leaves open which characters behind `\u`
spell a unit: the reader also takes a plus sign with three digits, so it agrees with the grammar of
four digits wherever no plus sign stands behind `\u`.
-/

namespace Templating

namespace Text

/-- The escapes of a single letter and the characters they stand for. -/
def letterEscapes : List (Char × Char) :=
  [('"', '"'), ('\\', '\\'), ('/', '/'), ('\'', '\''), ('b', '\x08'), ('f', '\x0c'), ('n', '\n'),
    ('r', '\r'), ('t', '\t')]

/-- The hexadecimal digits of both cases and their values. -/
def hexDigits : List (Char × Nat) :=
  "0123456789abcdef".toList.zipIdx ++ "ABCDEF".toList.zipIdx 10

/-- The characters are so many hexadecimal digits, and this is their number. -/
def Spells (count : Nat) (cs : List Char) (u : Nat) : Prop :=
  ∃ ds : List (Char × Nat), ds ⊆ hexDigits ∧ ds.length = count ∧ cs = ds.map Prod.fst ∧
    u = ds.foldl (fun n d => n * 16 + d.2) 0

/-- What is read as a unit: four digits, or a plus sign with three. -/
def ReadsUnit (cs : List Char) (u : Nat) : Prop :=
  Spells 4 cs u ∨ ∃ digits, cs = '+' :: digits ∧ Spells 3 digits u

/-- The first half of a pair of surrogates. -/
def IsHigh (u : Nat) : Prop := 0xD800 ≤ u ∧ u < 0xDC00

/-- The second half of a pair of surrogates. -/
def IsLow (u : Nat) : Prop := 0xDC00 ≤ u ∧ u < 0xE000

/-- The character that a pair of surrogates stands for. -/
def pairChar (high low : Nat) : Char :=
  Char.ofNat (0x10000 + (high - 0xD800) * 0x400 + (low - 0xDC00))

/-- The body stands for the text, where `IsUnit` says which characters behind `\u` spell which
unit. -/
inductive Denotes (IsUnit : List Char → Nat → Prop) : List Char → List Char → Prop
  | nil : Denotes IsUnit [] []
  | plain {c : Char} {body text : List Char} : c ≠ '\\' → Denotes IsUnit body text →
      Denotes IsUnit (c :: body) (c :: text)
  | letter {e c : Char} {body text : List Char} : (e, c) ∈ letterEscapes →
      Denotes IsUnit body text → Denotes IsUnit ('\\' :: e :: body) (c :: text)
  | unit {digits body text : List Char} {u : Nat} : IsUnit digits u → ¬ IsHigh u → ¬ IsLow u →
      Denotes IsUnit body text →
      Denotes IsUnit ('\\' :: 'u' :: (digits ++ body)) (Char.ofNat u :: text)
  | pair {digits digits' body text : List Char} {high low : Nat} : IsUnit digits high →
      IsUnit digits' low → IsHigh high → IsLow low → Denotes IsUnit body text →
      Denotes IsUnit ('\\' :: 'u' :: (digits ++ '\\' :: 'u' :: (digits' ++ body)))
        (pairChar high low :: text)

section Leaves

/-- A one-letter escape is read as the table says. -/
theorem simpleEscape?_eq_some_iff {e c : Char} :
    simpleEscape? e = some c ↔ (e, c) ∈ letterEscapes := by
  constructor
  · intro h
    unfold simpleEscape? at h
    split at h
    · next hself =>
      obtain rfl := Option.some.inj h
      rcases hself with rfl | rfl | rfl | rfl <;> decide
    · split_ifs at h
      all_goals
        obtain rfl := Option.some.inj h
        subst e
        decide
  · have hall : ∀ escape ∈ letterEscapes, simpleEscape? escape.1 = some escape.2 := by decide
    exact hall (e, c)

/-- What holds of the characters below 128 by their numbers holds of each of them. -/
theorem of_toNat_lt {P : Char → Prop} (h : ∀ n < 128, P (Char.ofNat n)) {c : Char}
    (hc : c.toNat < 128) : P c :=
  Char.ofNat_toNat c ▸ h c.toNat hc

/-- Hexadecimal digits are below 128. -/
theorem toNat_lt_of_hexDigit? {c : Char} {v : Nat} (h : hexDigit? c = some v) : c.toNat < 128 := by
  have hbelow {high : Char} (hc : c ≤ high) (hhigh : high.toNat < 128) : c.toNat < 128 :=
    Nat.lt_of_le_of_lt hc hhigh
  unfold hexDigit? at h
  split_ifs at h with hnumber hlower hupper
  · exact hbelow hnumber.2 (by decide)
  · exact hbelow hlower.2 (by decide)
  · exact hbelow hupper.2 (by decide)

/-- A hexadecimal digit is read as the table says. -/
theorem hexDigit?_eq_some_iff {c : Char} {v : Nat} :
    hexDigit? c = some v ↔ (c, v) ∈ hexDigits := by
  constructor
  · intro h
    have hall : ∀ n < 128, ∀ v ∈ hexDigit? (Char.ofNat n), (Char.ofNat n, v) ∈ hexDigits := by
      decide +kernel
    exact of_toNat_lt (P := fun c => ∀ v ∈ hexDigit? c, (c, v) ∈ hexDigits) hall
      (toNat_lt_of_hexDigit? h) v h
  · have hall : ∀ digit ∈ hexDigits, hexDigit? digit.1 = some digit.2 := by decide
    exact hall (c, v)

/-- Hexadecimal digits are read one after the other, behind those that have been read. -/
theorem foldl_hexDigit?_eq_some_iff {cs : List Char} {n u : Nat} :
    cs.foldl (fun acc c => do return (← acc) * 16 + (← hexDigit? c)) (some n) = some u ↔
      ∃ ds : List (Char × Nat), ds ⊆ hexDigits ∧ cs = ds.map Prod.fst ∧
        u = ds.foldl (fun n d => n * 16 + d.2) n := by
  induction cs generalizing n with
  | nil =>
    constructor
    · intro h
      exact ⟨[], List.nil_subset _, rfl, (Option.some.inj h).symm⟩
    · rintro ⟨ds, -, hds, rfl⟩
      rw [List.map_eq_nil_iff.mp hds.symm]
      rfl
  | cons c cs ih =>
    have hnone : cs.foldl (fun acc c => do return (← acc) * 16 + (← hexDigit? c)) none = none := by
      clear ih
      induction cs with
      | nil => rfl
      | cons c cs ih => exact ih
    rw [List.foldl_cons]
    constructor
    · intro h
      cases hdigit : hexDigit? c with
      | none =>
        rw [hdigit] at h
        exact absurd (hnone.symm.trans h) (by simp)
      | some v =>
        rw [hdigit] at h
        obtain ⟨ds, hds, rfl, rfl⟩ := ih.mp h
        exact ⟨(c, v) :: ds, List.cons_subset.mpr ⟨hexDigit?_eq_some_iff.mp hdigit, hds⟩, rfl, rfl⟩
    · rintro ⟨ds, hds, hcs, rfl⟩
      obtain ⟨d, ds, rfl, rfl, rfl⟩ := List.map_eq_cons_iff.mp hcs.symm
      obtain ⟨hd, hds⟩ := List.cons_subset.mp hds
      have hdigit : hexDigit? d.1 = some d.2 := hexDigit?_eq_some_iff.mpr hd
      rw [hdigit]
      exact ih.mpr ⟨ds, hds, rfl, rfl⟩

/-- A row of characters is read as a number if all of them are hexadecimal digits. -/
theorem hexDigits?_eq_some_iff {cs : List Char} {u : Nat} :
    hexDigits? cs = some u ↔ Spells cs.length cs u := by
  rw [hexDigits?, foldl_hexDigit?_eq_some_iff, Spells]
  constructor
  · rintro ⟨ds, hds, rfl, rfl⟩
    exact ⟨ds, hds, (List.length_map _).symm, rfl, rfl⟩
  · rintro ⟨ds, hds, -, hcs, hu⟩
    exact ⟨ds, hds, hcs, hu⟩

/-- Each of the characters is a digit. -/
theorem Spells.mem {count : Nat} {cs : List Char} {u : Nat} (h : Spells count cs u) {c : Char}
    (hc : c ∈ cs) : c ∈ hexDigits.map Prod.fst := by
  obtain ⟨ds, hds, -, rfl, -⟩ := h
  exact List.map_subset Prod.fst hds hc

/-- There are as many characters as digits. -/
theorem Spells.length_eq {count : Nat} {cs : List Char} {u : Nat} (h : Spells count cs u) :
    cs.length = count := by
  obtain ⟨ds, -, hlength, rfl, -⟩ := h
  rw [List.length_map, hlength]

/-- What is read as a unit has four characters. -/
theorem ReadsUnit.length_eq {cs : List Char} {u : Nat} (h : ReadsUnit cs u) : cs.length = 4 := by
  rcases h with h | ⟨digits, rfl, h⟩
  · exact h.length_eq
  · rw [List.length_cons, h.length_eq]

/-- Four characters are read as a unit if they are four digits, or a plus sign with three. -/
theorem unit?_eq_some_iff {cs : List Char} {u : Nat} : unit? cs = some u ↔ ReadsUnit cs u := by
  unfold unit? ReadsUnit
  split
  · next b c d =>
    rw [hexDigits?_eq_some_iff]
    constructor
    · intro h
      exact .inr ⟨_, rfl, h⟩
    · rintro (h | ⟨digits, heq, h⟩)
      · exact absurd (h.mem List.mem_cons_self) (by decide)
      · obtain rfl := (List.cons.inj heq).2
        exact h
  · next a b c d hplus =>
    rw [hexDigits?_eq_some_iff]
    constructor
    · exact .inl
    · rintro (h | ⟨digits, heq, -⟩)
      · exact h
      · obtain ⟨rfl, -⟩ := List.cons.inj heq
        exact absurd rfl hplus
  · next hsigned hfour =>
    constructor
    · intro h
      cases h
    · intro h
      have hlength : cs.length = 4 := ReadsUnit.length_eq h
      match cs, hlength with
      | [a, b, c, d], _ => exact absurd rfl (hfour a b c d)

/-- A unit is no surrogate if it is no half of a pair. -/
theorem isSurrogate_eq_false_iff {u : Nat} : isSurrogate u = false ↔ ¬ IsHigh u ∧ ¬ IsLow u := by
  simp only [isSurrogate, IsHigh, IsLow, Bool.and_eq_false_iff, decide_eq_false_iff_not]
  omega

/-- A first half is a surrogate. -/
theorem IsHigh.isSurrogate {u : Nat} (h : IsHigh u) : isSurrogate u = true := by
  by_contra hne
  exact (isSurrogate_eq_false_iff.mp (Bool.eq_false_iff.mpr hne)).1 h

/-- A second half is a surrogate. -/
theorem IsLow.isSurrogate {u : Nat} (h : IsLow u) : isSurrogate u = true := by
  by_contra hne
  exact (isSurrogate_eq_false_iff.mp (Bool.eq_false_iff.mpr hne)).2 h

/-- Two surrogates are joined if they are a first and a second half. -/
theorem joinSurrogates?_eq_some_iff {high low : Nat} {c : Char} :
    joinSurrogates? high low = some c ↔ IsHigh high ∧ IsLow low ∧ c = pairChar high low := by
  unfold joinSurrogates?
  split
  · next h =>
    have hhigh : IsHigh high := ⟨h.1, Nat.lt_succ_of_le h.2.1⟩
    have hlow : IsLow low := ⟨h.2.2.1, Nat.lt_succ_of_le h.2.2.2⟩
    simp only [hhigh, hlow, true_and, Option.some.injEq, pairChar, eq_comm]
  · next h =>
    simp only [reduceCtorEq, IsHigh, IsLow, false_iff]
    omega

end Leaves

section Bodies

/-- What the rest of a body stands for behind a surrogate that waits for its partner. -/
def DenotesAfter (IsUnit : List Char → Nat → Prop) :
    Option Nat → List Char → List Char → Prop
  | none, body, text => Denotes IsUnit body text
  | some high, body, text => ∃ digits low rest tail, body = '\\' :: 'u' :: (digits ++ rest) ∧
      text = pairChar high low :: tail ∧ IsUnit digits low ∧ IsHigh high ∧ IsLow low ∧
      Denotes IsUnit rest tail

/-- What is read stands for the text, also behind a surrogate that waits for its partner. -/
theorem denotesAfter_of_unescapeFrom {pending : Option Nat} {body text : List Char}
    (h : unescapeFrom pending body = some text) : DenotesAfter ReadsUnit pending body text := by
  fun_induction unescapeFrom pending body generalizing text with
  | case1 pending hnone =>
    obtain rfl := Option.isNone_iff_eq_none.mp hnone
    obtain rfl := Option.some.inj h
    exact .nil
  | case2 | case3 | case5 | case8 | case10 | case11 | case12 | case14 => cases h
  | case4 a b c d rest u hunit hsurrogate ih =>
    -- a unit that stands for a character by itself
    obtain ⟨tail, htail, rfl⟩ := Option.map_eq_some_iff.mp h
    obtain ⟨hhigh, hlow⟩ := isSurrogate_eq_false_iff.mp hsurrogate
    have hdenotes : Denotes ReadsUnit ('\\' :: 'u' :: ([a, b, c, d] ++ rest))
        (Char.ofNat u :: tail) :=
      .unit (unit?_eq_some_iff.mp hunit) hhigh hlow (ih htail)
    exact hdenotes
  | case6 a b c d rest high hunit hsurrogate ih =>
    -- the first surrogate of a pair, if the second follows
    obtain ⟨digits, low, rest, tail, rfl, rfl, hunit', hhigh, hlow, hdenotes⟩ := ih h
    have hpair : Denotes ReadsUnit
        ('\\' :: 'u' :: ([a, b, c, d] ++ '\\' :: 'u' :: (digits ++ rest)))
        (pairChar high low :: tail) :=
      .pair (unit?_eq_some_iff.mp hunit) hunit' hhigh hlow hdenotes
    exact hpair
  | case7 a b c d rest low hunit high hsurrogate ch hjoin ih =>
    obtain ⟨tail, htail, rfl⟩ := Option.map_eq_some_iff.mp h
    obtain ⟨hhigh, hlow, hch⟩ := joinSurrogates?_eq_some_iff.mp hjoin
    rw [hch]
    exact ⟨[a, b, c, d], low, rest, tail, rfl, rfl, unit?_eq_some_iff.mp hunit, hhigh, hlow,
      ih htail⟩
  | case9 pending e rest hunit ch hletter hnone ih =>
    obtain rfl := Option.isNone_iff_eq_none.mp hnone
    obtain ⟨tail, htail, rfl⟩ := Option.map_eq_some_iff.mp h
    exact .letter (simpleEscape?_eq_some_iff.mp hletter) (ih htail)
  | case13 pending c rest hunit hletter hslash hnone ih =>
    obtain rfl := Option.isNone_iff_eq_none.mp hnone
    obtain ⟨tail, htail, rfl⟩ := Option.map_eq_some_iff.mp h
    exact .plain hslash (ih htail)

/-- A unit is read on, and its characters are behind it. -/
theorem exists_of_readsUnit {cs : List Char} {u : Nat} (h : ReadsUnit cs u) :
    ∃ a b c d, cs = [a, b, c, d] ∧ unit? [a, b, c, d] = some u := by
  have hunit := unit?_eq_some_iff.mpr h
  match cs, h.length_eq with
  | [a, b, c, d], _ => exact ⟨a, b, c, d, rfl, hunit⟩

/-- A body that stands for a text is read as the text. -/
theorem unescape_of_denotes {body text : List Char} (h : Denotes ReadsUnit body text) :
    unescape body = some text := by
  unfold unescape
  induction h with
  | nil => rfl
  | plain hslash _ ih =>
    rw [unescapeFrom, if_neg hslash, ih]
    · rfl
    · exact fun _ _ _ _ _ heq _ => hslash heq
    · exact fun _ _ heq _ => hslash heq
  | letter hletter _ ih =>
    rw [unescapeFrom, simpleEscape?_eq_some_iff.mpr hletter]
    · simp only [Option.isNone_none, if_true, ih, Option.map_some]
    · rintro _ _ _ _ _ rfl -
      revert hletter
      simp [letterEscapes]
  | unit hunit hhigh hlow _ ih =>
    obtain ⟨a, b, c, d, rfl, hread⟩ := exists_of_readsUnit hunit
    have hsurrogate := isSurrogate_eq_false_iff.mpr ⟨hhigh, hlow⟩
    simp only [List.cons_append, List.nil_append, unescapeFrom, hread, hsurrogate, ih,
      Option.map_some]
  | pair hunit hunit' hhigh hlow _ ih =>
    obtain ⟨a, b, c, d, rfl, hread⟩ := exists_of_readsUnit hunit
    obtain ⟨a', b', c', d', rfl, hread'⟩ := exists_of_readsUnit hunit'
    have hjoin := joinSurrogates?_eq_some_iff.mpr ⟨hhigh, hlow, rfl⟩
    simp only [List.cons_append, List.nil_append, unescapeFrom, hread, hread', hhigh.isSurrogate,
      hlow.isSurrogate, hjoin, ih, Option.map_some]

/-- A body is read as a text exactly if it stands for the text. -/
theorem unescape_eq_some_iff {body text : List Char} :
    unescape body = some text ↔ Denotes ReadsUnit body text :=
  ⟨denotesAfter_of_unescapeFrom, unescape_of_denotes⟩

/-- What stands for a text does so if more is taken for a unit. -/
theorem Denotes.mono {IsUnit IsUnit' : List Char → Nat → Prop}
    (hle : ∀ {cs u}, IsUnit cs u → IsUnit' cs u) {body text : List Char}
    (h : Denotes IsUnit body text) : Denotes IsUnit' body text := by
  induction h with
  | nil => exact .nil
  | plain hslash _ ih => exact .plain hslash ih
  | letter hletter _ ih => exact .letter hletter ih
  | unit hunit hhigh hlow _ ih => exact .unit (hle hunit) hhigh hlow ih
  | pair hunit hunit' hhigh hlow _ ih => exact .pair (hle hunit) (hle hunit') hhigh hlow ih

/-- A unit with no plus sign in front of it has four digits. -/
theorem ReadsUnit.spells {cs : List Char} {u : Nat} (h : ReadsUnit cs u)
    {rest : List Char} (hplus : ¬ ['\\', 'u', '+'] <:+: '\\' :: 'u' :: (cs ++ rest)) :
    Spells 4 cs u := by
  rcases h with h | ⟨digits, rfl, -⟩
  · exact h
  · exact absurd ⟨[], digits ++ rest, rfl⟩ hplus

/-- Where no plus sign stands behind `\u`, units have four digits. -/
theorem Denotes.spells {body text : List Char} (h : Denotes ReadsUnit body text)
    (hplus : ¬ ['\\', 'u', '+'] <:+: body) : Denotes (Spells 4) body text := by
  induction h with
  | nil => exact .nil
  | @plain c body text hslash _ ih =>
    exact .plain hslash (ih fun hbody => hplus (hbody.trans (List.suffix_cons c body).isInfix))
  | @letter e c body text hletter _ ih =>
    exact .letter hletter
      (ih fun hbody => hplus (hbody.trans (List.suffix_append ['\\', e] body).isInfix))
  | @unit digits body text u hunit hhigh hlow _ ih =>
    refine .unit (hunit.spells hplus) hhigh hlow (ih fun hbody => hplus (hbody.trans ?_))
    exact (List.suffix_append ('\\' :: 'u' :: digits) body).isInfix
  | @pair digits digits' body text high low hunit hunit' hhigh hlow _ ih =>
    have hsecond : '\\' :: 'u' :: (digits' ++ body) <:+:
        '\\' :: 'u' :: (digits ++ '\\' :: 'u' :: (digits' ++ body)) :=
      (List.suffix_append ('\\' :: 'u' :: digits) ('\\' :: 'u' :: (digits' ++ body))).isInfix
    have hbehind : body <:+: '\\' :: 'u' :: (digits' ++ body) :=
      (List.suffix_append ('\\' :: 'u' :: digits') body).isInfix
    exact .pair (hunit.spells hplus) (hunit'.spells fun hin => hplus (hin.trans hsecond)) hhigh
      hlow (ih fun hin => hplus (hin.trans (hbehind.trans hsecond)))

/-- What stands behind the first `\u` of a body that stands for a text begins with a unit. -/
theorem Denotes.exists_unit {IsUnit : List Char → Nat → Prop} {cs text : List Char}
    (h : Denotes IsUnit ('\\' :: 'u' :: cs) text) :
    ∃ digits u rest, IsUnit digits u ∧ cs = digits ++ rest := by
  generalize hbody : '\\' :: 'u' :: cs = body at h
  cases h with
  | nil => cases hbody
  | plain hslash _ => exact absurd (List.cons.inj hbody).1.symm hslash
  | letter hletter _ =>
    obtain ⟨rfl, -⟩ := List.cons.inj (List.cons.inj hbody).2
    revert hletter
    simp [letterEscapes]
  | unit hunit _ _ _ => exact ⟨_, _, _, hunit, (List.cons.inj (List.cons.inj hbody).2).2⟩
  | pair hunit _ _ _ _ => exact ⟨_, _, _, hunit, (List.cons.inj (List.cons.inj hbody).2).2⟩

/-- The body of a literal is read as a text exactly if it stands for the text, with a plus sign and
three digits taken for a unit. Where no plus sign stands behind `\u` that is the grammar of
characters, one-letter escapes and four hexadecimal digits, whose surrogates come in pairs. A
literal with any other body is a bad escape. -/
theorem unescape_denotes (body : List Char) :
    (∀ text, unescape body = some text ↔ Denotes ReadsUnit body text) ∧
    (¬ ['\\', 'u', '+'] <:+: body →
      ∀ text, unescape body = some text ↔ Denotes (Spells 4) body text) ∧
    ∀ (s : Lexer.State) (quote : Char), Lexer.stringBody? quote (s.rest.drop 1) = some body →
      (∀ text, ¬ Denotes ReadsUnit body text) → s.string quote = .fault (.ofFault .badEscape) := by
  refine ⟨fun text => unescape_eq_some_iff, fun hplus text => ?_, fun s quote hbody hnone => ?_⟩
  · rw [unescape_eq_some_iff]
    constructor
    · intro h
      exact h.spells hplus
    · intro h
      exact h.mono .inl
  · have hunescape : unescape body = none :=
      Option.eq_none_iff_forall_ne_some.mpr fun text h => hnone text (unescape_eq_some_iff.mp h)
    simp only [Lexer.State.string, hbody, hunescape]

/-- A pair of surrogates and an escaped quote stand for two characters; a first surrogate with
another character behind it is a bad escape. -/
theorem unescape_denotes_of_surrogates :
    (¬ ['\\', 'u', '+'] <:+: "\\ud83D\\uDE00\\'".toList ∧
      (unescape "\\ud83D\\uDE00\\'".toList = some "😀'".toList ↔
        Denotes (Spells 4) "\\ud83D\\uDE00\\'".toList "😀'".toList)) ∧
    ∃ s : Lexer.State, Lexer.stringBody? '"' (s.rest.drop 1) = some "\\uD83Dx".toList ∧
      (∀ text, ¬ Denotes ReadsUnit "\\uD83Dx".toList text) ∧
      s.string '"' = .fault (.ofFault .badEscape) := by
  have hplus : ¬ ['\\', 'u', '+'] <:+: "\\ud83D\\uDE00\\'".toList := by decide +kernel
  have hlone : ∀ text, ¬ Denotes ReadsUnit "\\uD83Dx".toList text := by
    intro text h
    have hread : unescape "\\uD83Dx".toList = some text := unescape_eq_some_iff.mpr h
    have hnone : unescape "\\uD83Dx".toList = none := by decide +kernel
    exact absurd (hnone.symm.trans hread) (by simp)
  have hbody : Lexer.stringBody? '"' ("\"\\uD83Dx\"".toList.drop 1) = some "\\uD83Dx".toList := by
    decide +kernel
  exact ⟨⟨hplus, (unescape_denotes _).2.1 hplus _⟩,
    { cursor := { rest := "\"\\uD83Dx\"".toList } }, hbody, hlone,
    (unescape_denotes _).2.2 _ '"' hbody hlone⟩

/-- It cannot be left out that no plus sign stands behind `\u`: with three digits behind the sign
there are no four digits, and yet a text is read. -/
theorem not_forall_unescape_denotes :
    ¬ ∀ body text : List Char, unescape body = some text ↔ Denotes (Spells 4) body text := by
  intro h
  have hread : unescape "\\u+041".toList = some ['A'] := by decide +kernel
  obtain ⟨digits, u, rest, hunit, hcs⟩ := Denotes.exists_unit ((h _ _).mp hread)
  match digits, hunit.length_eq with
  | c :: digits, _ =>
    obtain ⟨rfl, -⟩ := List.cons.inj hcs
    exact absurd (hunit.mem List.mem_cons_self) (by decide)

end Bodies

end Text

end Templating
