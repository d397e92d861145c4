import Templating.Proofs.Json.Numbers
import Templating.Text.Case
import Templating.Text.Markup
import Templating.Text.Percent
import Templating.Text.Search

/-!
# Text without markup

No tag begins in a text that has no opening angle bracket. Escaping leaves none, and of the other
functions on text only the one that decodes percent signs makes one where there was none: whatever
else takes text apart or changes the case of it keeps it free of markup.
-/

namespace Templating.Text

/-- The text has no opening angle bracket. -/
def Inert (cs : List Char) : Prop := '<' ∉ cs

instance (cs : List Char) : Decidable (Inert cs) := inferInstanceAs (Decidable ('<' ∉ cs))

variable {cs ds : List Char}

@[simp] theorem inert_nil : Inert [] := List.not_mem_nil

@[simp] theorem inert_cons {c : Char} : Inert (c :: cs) ↔ c ≠ '<' ∧ Inert cs := by
  simp [Inert, eq_comm]

@[simp] theorem inert_append : Inert (cs ++ ds) ↔ Inert cs ∧ Inert ds := by
  simp [Inert, not_or]

/-- A text whose characters come from a text without markup. -/
theorem Inert.of_subset (h : Inert cs) (hsubset : ds ⊆ cs) : Inert ds := fun hmem =>
  h (hsubset hmem)

@[simp] theorem inert_reverse : Inert cs.reverse ↔ Inert cs := by simp [Inert]

/-- Replacing every character by a text without markup. -/
theorem inert_flatMap {f : Char → List Char} (h : ∀ c ∈ cs, Inert (f c)) :
    Inert (cs.flatMap f) := by
  intro hmem
  obtain ⟨c, hc, hmem⟩ := List.mem_flatMap.mp hmem
  exact h c hc hmem

/-- A text of characters of numbers. -/
theorem inert_of_isNumberChar (h : ∀ c ∈ cs, Json.isNumberChar c = true) : Inert cs := fun hmem =>
  absurd (h _ hmem) (by decide)

/-! ## Escaping -/

/-- A character without an entity is no angle bracket. -/
theorem ne_of_entity?_eq_none {c : Char} (h : entity? c = none) : c ≠ '<' := by
  rintro rfl
  exact absurd h (by decide)

/-- No entity contains an angle bracket. -/
theorem inert_of_entity? {c : Char} {entity : List Char} (h : entity? c = some entity) :
    Inert entity := by
  unfold entity? at h
  split_ifs at h <;> obtain rfl := Option.some.inj h <;> decide

/-- Text escaped behind characters that are no angle brackets. -/
theorem inert_escapeFrom {run : List Char} (hrun : Inert run) : Inert (escapeFrom run cs) := by
  induction cs generalizing run with
  | nil => exact inert_reverse.mpr hrun
  | cons c rest ih =>
    rw [escapeFrom]
    split
    · rename_i hnone
      exact ih (inert_cons.mpr ⟨ne_of_entity?_eq_none hnone, hrun⟩)
    · rename_i hsome
      exact inert_append.mpr
        ⟨inert_append.mpr ⟨inert_reverse.mpr hrun, inert_of_entity? hsome⟩, ih inert_nil⟩

/-- Text escaped for markup. -/
theorem inert_escapeString (s : String) : Inert (escapeString s).toList := by
  rw [escapeString, String.toList_ofList]
  exact inert_escapeFrom inert_nil

/-- A digit is no angle bracket. -/
theorem upperHex_ne {n : Nat} (h : n < 16) : upperHex n ≠ '<' := by
  have hall : ∀ n < 16, upperHex n ≠ '<' := by decide
  exact hall n h

/-- Text escaped for a script. -/
theorem inert_escapeScript : Inert (escapeScript cs) := by
  refine inert_flatMap fun c _ => ?_
  split
  · have hdigit (n : Nat) : upperHex (n % 16) ≠ '<' := upperHex_ne (Nat.mod_lt n (by decide))
    simp [fourHex, hdigit]
  · rename_i h
    refine inert_cons.mpr ⟨?_, inert_nil⟩
    rintro rfl
    exact h (by decide)

/-! ## Letter case -/

/-- The angle bracket is the character of one number only. -/
theorem eq_of_ofNat_eq {n : Nat} (h : Char.ofNat n = '<') : n = 60 := by
  by_cases hvalid : n.isValidChar
  · have hnat : (Char.ofNat n).toNat = 60 := congrArg Char.toNat h
    rw [Char.ofNat, dif_pos hvalid] at hnat
    exact hnat
  · rw [Char.ofNat, dif_neg hvalid] at h
    exact absurd h (by decide)

/-- Mapping by tables that never lead to an angle bracket. -/
theorem inert_mapCase {sequences : List (Nat × List Nat)} {runs : List CaseRun} {c : Char}
    (hsequences : ∀ row ∈ sequences, 60 ∉ row.2)
    (hruns : ∀ r ∈ runs, (60 : Int) < r.first + r.offset) (hc : c ≠ '<') :
    Inert (mapCase sequences runs c) := by
  unfold mapCase
  split
  · rename_i image hfind
    intro hmem
    obtain ⟨n, hn, heq⟩ := List.mem_map.mp hmem
    exact hsequences _ (List.mem_of_find?_eq_some hfind) (eq_of_ofNat_eq heq ▸ hn)
  · split
    · rename_i n hfind
      obtain ⟨r, hr, happly⟩ := List.exists_of_findSome?_eq_some hfind
      refine inert_cons.mpr ⟨fun heq => ?_, inert_nil⟩
      obtain rfl := eq_of_ofNat_eq heq
      unfold CaseRun.apply? at happly
      split at happly
      · have hrun := hruns r hr
        have himage := Option.some.inj happly
        omega
      · simp at happly
    · exact inert_cons.mpr ⟨hc, inert_nil⟩

/-- Upper case of a character. -/
theorem inert_upperChar {c : Char} (hc : c ≠ '<') : Inert (upperChar c) := by
  unfold upperChar
  split
  · rename_i hascii
    have hall : ∀ n < 128, n ≠ 60 → (Char.ofNat n).toUpper ≠ '<' := by decide
    have hne : c.toNat ≠ 60 := fun h => hc (by rw [← Char.ofNat_toNat c, h])
    refine inert_cons.mpr ⟨?_, inert_nil⟩
    simpa using hall c.toNat hascii hne
  · exact inert_mapCase (by decide +kernel) (by decide +kernel) hc

/-- Lower case of a character. -/
theorem inert_lowerChar {c : Char} (hc : c ≠ '<') : Inert (lowerChar c) := by
  unfold lowerChar
  split
  · rename_i hascii
    have hall : ∀ n < 128, n ≠ 60 → (Char.ofNat n).toLower ≠ '<' := by decide
    have hne : c.toNat ≠ 60 := fun h => hc (by rw [← Char.ofNat_toNat c, h])
    refine inert_cons.mpr ⟨?_, inert_nil⟩
    simpa using hall c.toNat hascii hne
  · exact inert_mapCase (by decide +kernel) (by decide +kernel) hc

/-- The characters of a text without markup. -/
theorem Inert.ne (h : Inert cs) {c : Char} (hc : c ∈ cs) : c ≠ '<' := fun heq => h (heq ▸ hc)

/-- Upper case of a text. -/
theorem Inert.upper (h : Inert cs) : Inert (upper cs) :=
  inert_flatMap fun _ hc => inert_upperChar (h.ne hc)

/-- Lower case of a text, whatever stands before it. -/
theorem Inert.lowerAfter (earlier : List Char) (h : Inert cs) : Inert (lowerAfter earlier cs) := by
  induction cs generalizing earlier with
  | nil => exact inert_nil
  | cons c rest ih =>
    obtain ⟨hc, hrest⟩ := inert_cons.mp h
    refine inert_append.mpr ⟨?_, ih _ hrest⟩
    split
    · split <;> decide
    · exact inert_lowerChar hc

/-- First character in upper case, the others in lower case. -/
theorem Inert.capitalize (h : Inert cs) : Inert (capitalize cs) := by
  cases cs with
  | nil => exact inert_nil
  | cons c rest =>
    obtain ⟨hc, hrest⟩ := inert_cons.mp h
    exact inert_append.mpr
      ⟨inert_upperChar hc, inert_flatMap fun _ hd => inert_lowerChar (hrest.ne hd)⟩

/-- First characters of words in upper case, the others in lower case. -/
theorem Inert.titleFrom (atStart : Bool) (h : Inert cs) : Inert (titleFrom atStart cs) := by
  induction cs generalizing atStart with
  | nil => exact inert_nil
  | cons c rest ih =>
    obtain ⟨hc, hrest⟩ := inert_cons.mp h
    unfold Text.titleFrom
    split
    · exact inert_cons.mpr ⟨hc, ih true hrest⟩
    · split
      · exact inert_append.mpr ⟨inert_upperChar hc, ih false hrest⟩
      · exact inert_append.mpr ⟨inert_lowerChar hc, ih false hrest⟩

/-! ## Cutting and replacing -/

/-- Text without white space at its ends. -/
theorem Inert.trim (h : Inert cs) : Inert (trim cs) := by
  refine h.of_subset fun c hc => ?_
  have hc := (List.dropWhile_suffix _).subset (List.mem_reverse.mp hc)
  exact (List.dropWhile_suffix _).subset (List.mem_reverse.mp hc)

/-- Removing what looks like a tag adds nothing. -/
theorem stripTagsFrom_subset (inside : Bool) (cs : List Char) : stripTagsFrom inside cs ⊆ cs := by
  induction cs generalizing inside with
  | nil => exact fun _ hc => hc
  | cons c rest ih =>
    unfold stripTagsFrom
    split
    · exact List.subset_cons_of_subset _ (ih _)
    · split
      · exact List.subset_cons_of_subset _ (ih _)
      · exact List.cons_subset_cons _ (ih _)

/-- Text with backslashes before quotes and backslashes. -/
theorem Inert.addSlashes (h : Inert cs) : Inert (addSlashes cs) := by
  refine inert_flatMap fun c hc => ?_
  split
  · exact inert_cons.mpr ⟨by decide, inert_cons.mpr ⟨h.ne hc, inert_nil⟩⟩
  · exact inert_cons.mpr ⟨h.ne hc, inert_nil⟩

/-- Text with some stretches replaced by a text without markup. -/
theorem Inert.replaceFrom {p new : List Char} {skip : Nat} (h : Inert cs) (hnew : Inert new) :
    Inert (replaceFrom p new skip cs) := by
  induction cs generalizing skip with
  | nil => exact inert_nil
  | cons c rest ih =>
    obtain ⟨hc, hrest⟩ := inert_cons.mp h
    cases skip with
    | succ skip => exact ih hrest
    | zero =>
      simp only [Text.replaceFrom]
      split
      · exact inert_append.mpr ⟨hnew, ih hrest⟩
      · exact inert_cons.mpr ⟨hc, ih hrest⟩

/-- Text with every occurrence of a pattern replaced by a text without markup. -/
theorem Inert.replace {p new : List Char} (h : Inert cs) (hnew : Inert new) :
    Inert (replace p new cs) := by
  unfold Text.replace
  split
  · exact inert_append.mpr
      ⟨hnew, inert_flatMap fun c hc => inert_cons.mpr ⟨h.ne hc, hnew⟩⟩
  · exact h.replaceFrom hnew

/-- Percent-encoded text. -/
theorem inert_percentEncode : Inert (percentEncode cs) := by
  intro hmem
  obtain ⟨b, _, hmem⟩ := List.mem_flatMap.mp hmem
  have hdigit {n : Nat} (h : n < 16) : Inert [upperHex n] :=
    inert_cons.mpr ⟨upperHex_ne h, inert_nil⟩
  have hbyte := b.toNat_lt
  unfold percentByte at hmem
  split at hmem
  · rename_i hfree
    have heq := eq_of_ofNat_eq (List.mem_singleton.mp hmem).symm
    simp [isUnreserved, heq] at hfree
  · refine absurd hmem (inert_cons.mpr ⟨by decide, inert_cons.mpr ⟨?_, hdigit ?_⟩⟩)
    · exact upperHex_ne (by omega)
    · omega

end Templating.Text
