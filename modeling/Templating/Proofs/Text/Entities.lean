import Mathlib.Logic.Function.Basic
import Templating.Proofs.Text.Markup
import Templating.Proofs.Text.Utf8

/-!
# Entities

Escaping for markup is safe and loses nothing. Text is escaped character by character, so that the
escape of a text put together from two is put together from their escapes; what is written holds no
special character but the ampersands that entities begin with, and replacing the entities back from
left to right gives the text again. The second part is about the bytes of a text: going through
them, the stretches between special bytes can be copied as they are, because they begin and end
between characters.
-/

namespace Templating.Text

variable {c : Char} {entity cs : List Char}

/-- The special characters with their entities. -/
def entities : List (Char × List Char) :=
  [('&', "&amp;".toList), ('<', "&lt;".toList), ('>', "&gt;".toList), ('"', "&quot;".toList),
    ('\'', "&#39;".toList)]

/-- A character has an entity if it is in the table. -/
theorem entity?_eq_some_iff : entity? c = some entity ↔ (c, entity) ∈ entities := by
  constructor
  · intro h
    unfold entity? at h
    split_ifs at h <;> subst_vars <;> obtain rfl := Option.some.inj h <;> decide
  · intro h
    have hall : ∀ e ∈ entities, entity? e.1 = some e.2 := by decide
    exact hall _ h

/-- A character without an entity is none of the special ones. -/
theorem ne_of_mem_entities (h : entity? c = none) {e : Char × List Char} (he : e ∈ entities) :
    c ≠ e.1 := by
  rintro rfl
  rw [entity?_eq_some_iff.mpr he] at h
  exact absurd h (Option.some_ne_none _)

/-- A character without an entity is no ampersand. -/
theorem ne_amp (h : entity? c = none) : c ≠ '&' :=
  ne_of_mem_entities h (e := ('&', "&amp;".toList)) (by decide)

/-! ## Character by character -/

/-- What a character is written as: its entity, or itself. -/
def escapeChar (c : Char) : List Char := (entity? c).getD [c]

/-- Copying run by run comes to escaping character by character. -/
theorem escapeFrom_eq_flatMap (run cs : List Char) :
    escapeFrom run cs = run.reverse ++ cs.flatMap escapeChar := by
  induction cs generalizing run with
  | nil => simp [escapeFrom]
  | cons c cs ih =>
    rw [escapeFrom, List.flatMap_cons, escapeChar]
    cases entity? c with
    | none => simp [ih]
    | some entity => simp [ih]

/-- The characters of an escaped text. -/
theorem toList_escapeString (s : String) :
    (escapeString s).toList = s.toList.flatMap escapeChar := by
  rw [escapeString, String.toList_ofList, escapeMarkup, escapeFrom_eq_flatMap]
  rfl

/-- Escaping a text put together from two. -/
theorem escapeString_append (s t : String) :
    escapeString (s ++ t) = escapeString s ++ escapeString t := by
  rw [← String.toList_inj, String.toList_append]
  simp only [toList_escapeString, String.toList_append, List.flatMap_append]

/-- Only ampersands are left of the special characters. -/
theorem not_mem_escape {special : Char} (hspecial : special ∈ ['<', '>', '"', '\'']) :
    special ∉ cs.flatMap escapeChar := by
  intro hmem
  obtain ⟨c, -, hmem⟩ := List.mem_flatMap.mp hmem
  unfold escapeChar at hmem
  cases hentity : entity? c with
  | none =>
    have hentities : ∀ x ∈ ['<', '>', '"', '\''], ∃ e ∈ entities, e.1 = x := by simp [entities]
    obtain ⟨e, he, rfl⟩ := hentities special hspecial
    rw [hentity] at hmem
    exact ne_of_mem_entities hentity he (List.mem_singleton.mp hmem).symm
  | some entity =>
    have hclean : ∀ e ∈ entities, ∀ x ∈ ['<', '>', '"', '\''], x ∉ e.2 := by simp [entities]
    rw [hentity] at hmem
    exact hclean _ (entity?_eq_some_iff.mp hentity) special hspecial hmem

/-- An ampersand stands at the front of an entity only. -/
theorem eq_nil_of_entity {before after : List Char} (h : (c, before ++ '&' :: after) ∈ entities) :
    before = [] := by
  have hfront : ∀ e ∈ entities, e.2.head? = some '&' ∧ '&' ∉ e.2.tail := by decide
  obtain ⟨-, htail⟩ := hfront _ h
  cases before with
  | nil => rfl
  | cons x before => exact absurd (by simp) htail

/-- Every ampersand of an escaped text begins an entity. -/
theorem exists_entity_of_amp {before after : List Char}
    (h : cs.flatMap escapeChar = before ++ '&' :: after) :
    ∃ e ∈ entities, e.2 <+: '&' :: after := by
  induction cs generalizing before with
  | nil => simp at h
  | cons c cs ih =>
    rw [List.flatMap_cons, List.append_eq_append_iff] at h
    rcases h with ⟨middle, -, hrest⟩ | ⟨middle, hchar, hrest⟩
    · exact ih hrest
    · cases middle with
      | nil =>
        have hfront : cs.flatMap escapeChar = [] ++ '&' :: after := hrest.symm
        exact ih hfront
      | cons x middle =>
        obtain ⟨rfl, rfl⟩ := List.cons.inj hrest
        unfold escapeChar at hchar
        cases hentity : entity? c with
        | none =>
          simp only [hentity, Option.getD_none, List.singleton_eq_append_iff] at hchar
          obtain ⟨-, hamp, -⟩ := by simpa using hchar
          exact absurd hamp.symm (ne_amp hentity)
        | some entity =>
          have hmem := entity?_eq_some_iff.mp hentity
          simp only [hentity, Option.getD_some] at hchar
          obtain rfl := eq_nil_of_entity (hchar ▸ hmem)
          exact ⟨_, hmem, by simp [hchar]⟩

/-! ## Replacing entities back -/

/-- Replace entities by their characters, from left to right. -/
def restore : List Char → List Char
  | '&' :: 'a' :: 'm' :: 'p' :: ';' :: rest => '&' :: restore rest
  | '&' :: 'l' :: 't' :: ';' :: rest => '<' :: restore rest
  | '&' :: 'g' :: 't' :: ';' :: rest => '>' :: restore rest
  | '&' :: 'q' :: 'u' :: 'o' :: 't' :: ';' :: rest => '"' :: restore rest
  | '&' :: '#' :: '3' :: '9' :: ';' :: rest => '\'' :: restore rest
  | c :: rest => c :: restore rest
  | [] => []

/-- An entity is replaced by its character. -/
theorem restore_entity (h : (c, entity) ∈ entities) (rest : List Char) :
    restore (entity ++ rest) = c :: restore rest := by
  simp only [entities, List.mem_cons, Prod.mk.injEq, List.not_mem_nil, or_false] at h
  rcases h with ⟨rfl, rfl⟩ | ⟨rfl, rfl⟩ | ⟨rfl, rfl⟩ | ⟨rfl, rfl⟩ | ⟨rfl, rfl⟩ <;> simp [restore]

/-- A character that begins no entity stays. -/
theorem restore_cons (h : c ≠ '&') (rest : List Char) :
    restore (c :: rest) = c :: restore rest := by
  simp [restore, h]

/-- Replacing entities back undoes escaping. -/
theorem restore_escape (cs : List Char) : restore (cs.flatMap escapeChar) = cs := by
  induction cs with
  | nil => rfl
  | cons c cs ih =>
    rw [List.flatMap_cons, escapeChar]
    cases hentity : entity? c with
    | none =>
      rw [Option.getD_none, List.singleton_append, restore_cons (ne_amp hentity), ih]
    | some entity => rw [Option.getD_some, restore_entity (entity?_eq_some_iff.mp hentity), ih]

/-! ## Byte by byte -/

/-- What is written while the bytes of a text are gone through: a stretch of the text between two of
its bytes, or an entity. -/
inductive Piece where
  | stretch (start stop : Nat)
  | entity (text : List Char)
  deriving DecidableEq

/-- The stretch between two bytes, if it is not empty. -/
def stretch (start stop : Nat) : List Piece := if start < stop then [.stretch start stop] else []

/-- The pieces of a text from the byte at an index on. What stands behind `start` is still to be
written. -/
def pieces (start index : Nat) : List UInt8 → List Piece
  | [] => stretch start index
  | b :: rest =>
    match entity? (Char.ofNat b.toNat) with
    | none => pieces start (index + 1) rest
    | some entity =>
      stretch start index ++ .entity entity :: pieces (index + 1) (index + 1) rest

/-- The bytes that a piece of a text consists of. -/
def Piece.bytes (text : List UInt8) : Piece → List UInt8
  | .stretch start stop => (text.drop start).take (stop - start)
  | .entity e => utf8Bytes e

/-- A stretch begins and ends between characters. -/
def Piece.BetweenChars (s : String) : Piece → Prop
  | .stretch start stop => String.Pos.Raw.IsValid s ⟨start⟩ ∧ String.Pos.Raw.IsValid s ⟨stop⟩
  | .entity _ => True

/-- A special character is one byte. -/
theorem utf8EncodeChar_of_entity (h : entity? c = some entity) :
    ∃ b : UInt8, String.utf8EncodeChar c = [b] ∧ Char.ofNat b.toNat = c := by
  have hall : ∀ e ∈ entities, String.utf8EncodeChar e.1 = [UInt8.ofNat e.1.toNat] ∧
      Char.ofNat (UInt8.ofNat e.1.toNat).toNat = e.1 := by decide
  exact ⟨_, hall _ (entity?_eq_some_iff.mp h)⟩

/-- No byte of another character is special. -/
theorem entity?_of_mem_utf8EncodeChar (h : entity? c = none) {b : UInt8}
    (hb : b ∈ String.utf8EncodeChar c) : entity? (Char.ofNat b.toNat) = none := by
  have hhigh : 128 ≤ b.toNat → entity? (Char.ofNat b.toNat) = none := by
    intro hle
    rw [Option.eq_none_iff_forall_ne_some]
    intro entity hentity
    have hall : ∀ e ∈ entities, e.1.toNat < 128 := by decide
    have hlt := hall _ (entity?_eq_some_iff.mp hentity)
    rw [toNat_ofNat_byte] at hlt
    omega
  rcases Nat.lt_or_ge c.toNat 128 with hascii | hle
  · rw [utf8EncodeChar_ascii hascii] at hb
    rw [List.mem_singleton.mp hb, toNat_byte (Nat.lt_trans hascii (by decide)), Char.ofNat_toNat]
    exact h
  · exact hhigh (le_of_mem_utf8EncodeChar hle hb)

/-- Bytes that are not special become part of the stretch that is still to be written. -/
theorem pieces_append {bs : List UInt8} (h : ∀ b ∈ bs, entity? (Char.ofNat b.toNat) = none)
    (start index : Nat) (rest : List UInt8) :
    pieces start index (bs ++ rest) = pieces start (index + bs.length) rest := by
  induction bs generalizing index with
  | nil => rfl
  | cons b bs ih =>
    rw [List.cons_append, pieces, h b List.mem_cons_self]
    simp only
    rw [ih (fun b' hb' => h b' (List.mem_cons_of_mem _ hb')), List.length_cons]
    congr 1
    omega

/-- The stretch behind the characters `front` is the run of characters that stands there, and it
lies between characters. -/
theorem stretch_spec (front run rest : List Char) :
    (stretch (utf8Bytes front).length (utf8Bytes (front ++ run)).length).flatMap
        (Piece.bytes (utf8Bytes (front ++ run ++ rest))) = utf8Bytes run ∧
      ∀ p ∈ stretch (utf8Bytes front).length (utf8Bytes (front ++ run)).length,
        p.BetweenChars (String.ofList (front ++ run ++ rest)) := by
  have hlength : (utf8Bytes (front ++ run)).length =
      (utf8Bytes front).length + (utf8Bytes run).length := by
    rw [utf8Bytes_append, List.length_append]
  unfold stretch
  split
  · constructor
    · rw [List.flatMap_singleton, Piece.bytes, hlength, Nat.add_sub_cancel_left, List.append_assoc,
        utf8Bytes_append, utf8Bytes_append, List.drop_left, List.take_left]
    · intro p hp
      rw [List.mem_singleton.mp hp]
      refine ⟨?_, isValid_length_utf8Bytes _ _⟩
      rw [List.append_assoc]
      exact isValid_length_utf8Bytes _ _
  · have hnil : utf8Bytes run = [] := List.eq_nil_of_length_eq_zero (by omega)
    exact ⟨by rw [hnil, List.flatMap_nil], by simp⟩

/-- A character without an entity becomes part of the stretch that is still to be written. -/
theorem pieces_cons (h : entity? c = none) (start : Nat) (before cs : List Char) :
    pieces start (utf8Bytes before).length (utf8Bytes (c :: cs)) =
      pieces start (utf8Bytes (before ++ [c])).length (utf8Bytes cs) := by
  have hmore : utf8Bytes (before ++ [c]) = utf8Bytes before ++ String.utf8EncodeChar c := by
    simp [utf8Bytes]
  rw [hmore, List.length_append]
  exact pieces_append (fun b hb => entity?_of_mem_utf8EncodeChar h hb) start _ (utf8Bytes cs)

/-- A special character ends the stretch, and the next one begins behind it. -/
theorem pieces_cons_entity (h : entity? c = some entity) (start : Nat) (before cs : List Char) :
    pieces start (utf8Bytes before).length (utf8Bytes (c :: cs)) =
      stretch start (utf8Bytes before).length ++ .entity entity ::
        pieces (utf8Bytes (before ++ [c])).length (utf8Bytes (before ++ [c])).length
          (utf8Bytes cs) := by
  obtain ⟨b, hb, hchar⟩ := utf8EncodeChar_of_entity h
  have hmore : utf8Bytes (before ++ [c]) = utf8Bytes before ++ [b] := by simp [utf8Bytes, hb]
  have hbytes : utf8Bytes (c :: cs) = b :: utf8Bytes cs := by simp [utf8Bytes, hb]
  rw [hmore, hbytes, pieces, hchar, h, List.length_append, List.length_singleton]

/-- Going through the bytes of what is left of a text, behind a run that is still to be written. -/
theorem pieces_spec (front run cs : List Char) :
    let text := front ++ run.reverse ++ cs
    let written := pieces (utf8Bytes front).length (utf8Bytes (front ++ run.reverse)).length
      (utf8Bytes cs)
    written.flatMap (Piece.bytes (utf8Bytes text)) = utf8Bytes (escapeFrom run cs) ∧
      ∀ p ∈ written, p.BetweenChars (String.ofList text) := by
  intro text
  induction cs generalizing front run with
  | nil => exact stretch_spec front run.reverse []
  | cons c cs ih =>
    cases hentity : entity? c with
    | none =>
      have hrun := ih front (c :: run)
      rw [List.reverse_cons, ← List.append_assoc, List.append_assoc _ [c]] at hrun
      rw [pieces_cons hentity, escapeFrom, hentity]
      exact hrun
    | some entity =>
      have hrun := ih (front ++ run.reverse ++ [c]) []
      rw [List.reverse_nil, List.append_nil, List.append_assoc _ [c]] at hrun
      obtain ⟨hstretch, hbetween⟩ := stretch_spec front run.reverse (c :: cs)
      rw [pieces_cons_entity hentity, escapeFrom, hentity]
      constructor
      · have hescape : utf8Bytes (run.reverse ++ entity ++ escapeFrom [] cs) =
            utf8Bytes run.reverse ++ (utf8Bytes entity ++ utf8Bytes (escapeFrom [] cs)) := by
          rw [utf8Bytes_append, utf8Bytes_append, List.append_assoc]
        rw [List.flatMap_append, hstretch, List.flatMap_cons]
        exact (congrArg _ (congrArg _ hrun.1)).trans hescape.symm
      · intro p hp
        rcases List.mem_append.mp hp with hp | hp
        · exact hbetween p hp
        · rcases List.mem_cons.mp hp with rfl | hp
          · trivial
          · exact hrun.2 p hp

/-- For every text, copying the stretches between special bytes gives its escape and never cuts a
character; the escape is the text with every special character replaced by its entity. It has no
angle bracket and no quote, and every ampersand of it begins an entity. Escaping a text put together
from two escapes both, and the text can be told from its escape: replacing the entities back from
left to right restores it. -/
theorem escapeString_safe_and_lossless (s t : String) :
    ((pieces 0 0 (utf8Bytes s.toList)).flatMap (Piece.bytes (utf8Bytes s.toList)) =
          utf8Bytes (escapeString s).toList ∧
        ∀ p ∈ pieces 0 0 (utf8Bytes s.toList), p.BetweenChars s) ∧
      (escapeString s).toList = s.toList.flatMap escapeChar ∧
      (∀ special ∈ ['<', '>', '"', '\''], special ∉ (escapeString s).toList) ∧
      (∀ before after, (escapeString s).toList = before ++ '&' :: after →
        ∃ e ∈ entities, e.2 <+: '&' :: after) ∧
      escapeString (s ++ t) = escapeString s ++ escapeString t ∧
      restore (escapeString s).toList = s.toList ∧
      (s ≠ t → escapeString s ≠ escapeString t) := by
  have hescape := toList_escapeString s
  refine ⟨?_, hescape, ?_, ?_, escapeString_append s t, ?_, ?_⟩
  · have hpieces := pieces_spec [] [] s.toList
    simpa [escapeString, escapeMarkup, utf8Bytes] using hpieces
  · intro special hspecial
    rw [hescape]
    exact not_mem_escape hspecial
  · intro before after h
    exact exists_entity_of_amp (hescape ▸ h)
  · rw [hescape, restore_escape]
  · intro hne heq
    have hlists : s.toList.flatMap escapeChar = t.toList.flatMap escapeChar := by
      rw [← hescape, heq, toList_escapeString]
    refine hne (String.toList_inj.mp ?_)
    rw [← restore_escape s.toList, hlists, restore_escape]

/-- A text with a character of two bytes, a special character and what looks like an entity. -/
theorem escapeString_safe_and_lossless_lookalike :
    let s := "é<&lt;"
    (.stretch 0 2 ∈ pieces 0 0 (utf8Bytes s.toList) ∧ Piece.BetweenChars s (.stretch 0 2)) ∧
      ('<' ∈ ['<', '>', '"', '\''] ∧ '<' ∉ (escapeString s).toList) ∧
      ((escapeString s).toList = "é&lt;".toList ++ '&' :: "amp;lt;".toList ∧
        ∃ e ∈ entities, e.2 <+: '&' :: "amp;lt;".toList) ∧
      s ≠ "é<<" ∧ escapeString s ≠ escapeString "é<<" := by
  intro s
  obtain ⟨⟨-, hbetween⟩, -, hclean, hamp, -, -, hne⟩ := escapeString_safe_and_lossless s "é<<"
  have hstretch : .stretch 0 2 ∈ pieces 0 0 (utf8Bytes s.toList) := by decide
  have hspecial : '<' ∈ ['<', '>', '"', '\''] := by decide
  have hescape : (escapeString s).toList = "é&lt;".toList ++ '&' :: "amp;lt;".toList := by decide
  have hdiffer : s ≠ "é<<" := by decide
  exact ⟨⟨hstretch, hbetween _ hstretch⟩, ⟨hspecial, hclean _ hspecial⟩,
    ⟨hescape, hamp _ _ hescape⟩, hdiffer, hne hdiffer⟩

end Templating.Text
