import Templating.Artifact.Text
import Templating.Proofs.Artifact.Document
import Templating.Proofs.Json.Layout

/-!
# Artifacts are read back

The text of a program is read back as the program, under the name it was written with. Removing
what was written around it always leaves the text of the document alone. Without this, reading looks
for the first opening brace and the last closing one: these are the braces of the document, whatever
braces and quotes stand in names and constants, as long as no opening brace was written before the
document and no closing brace behind it.
-/

namespace Templating

namespace Text

/-- Dropping stops at a character that is kept. -/
theorem dropWhile_append_cons {p : Char → Bool} {c : Char} (hc : p c = false) (xs ys : List Char) :
    (xs ++ c :: ys).dropWhile p = xs.dropWhile p ++ c :: ys := by
  induction xs with
  | nil => simp [hc]
  | cons x xs ih => cases hx : p x <;> simp [hx, ih]

/-- Trimming a text keeps everything between two characters that are not white space, and at most
what stands around them. -/
theorem trim_eq (first last : Char) (hfirst : isBlank first = false) (hlast : isBlank last = false)
    (before inner after : List Char) : ∃ before' after', before' ⊆ before ∧ after' ⊆ after ∧
      trim (before ++ first :: inner ++ last :: after) =
        before' ++ first :: inner ++ last :: after' := by
  refine ⟨before.dropWhile isBlank, (after.reverse.dropWhile isBlank).reverse,
    (List.dropWhile_sublist _).subset, ?_, ?_⟩
  · intro c hc
    exact List.mem_reverse.mp ((List.dropWhile_sublist _).subset (List.mem_reverse.mp hc))
  · have hstart : trimStart (before ++ first :: inner ++ last :: after) =
        before.dropWhile isBlank ++ first :: inner ++ last :: after := by
      rw [trimStart, List.append_assoc, List.cons_append, dropWhile_append_cons hfirst]
      simp
    rw [trim, hstart, trimEnd, List.reverse_append, List.reverse_cons, List.append_assoc,
      List.singleton_append, dropWhile_append_cons hlast]
    simp

end Text

namespace EmitOptions

/-- Removing what was written around a text gives the text. -/
theorem unwrap_wrap (o : EmitOptions) (body : String) :
    o.unwrap (o.wrapStart ++ body ++ o.wrapEnd) = body := by
  have hstart : Text.stripStart? o.wrapStart.toList (o.wrapStart ++ body ++ o.wrapEnd).toList =
      some (body.toList ++ o.wrapEnd.toList) := Text.stripStart?_eq_some_iff.mpr (by simp)
  have hend : Text.stripEnd? o.wrapEnd.toList (body.toList ++ o.wrapEnd.toList) =
      some body.toList := Text.stripEnd?_eq_some_iff.mpr rfl
  rw [unwrap, hstart, Option.getD_some, hend, Option.getD_some, String.ofList_toList]

end EmitOptions

namespace Program

/-- Reading looks at what stands between the first opening brace and the last closing one. -/
theorem braced_eq {before inner after : List Char} (hbefore : '{' ∉ before) (hafter : '}' ∉ after) :
    braced (before ++ '{' :: inner ++ '}' :: after) = '{' :: inner ++ ['}'] := by
  have hskip : ∀ c ∈ before, (c != '{') = true := fun c hc =>
    bne_iff_ne.mpr fun heq => hbefore (heq ▸ hc)
  have hskip' : ∀ c ∈ after.reverse, (c != '}') = true := fun c hc =>
    bne_iff_ne.mpr fun heq => hafter (heq ▸ List.mem_reverse.mp hc)
  have hfirst : (before ++ '{' :: inner ++ '}' :: after).dropWhile (· != '{') =
      '{' :: inner ++ '}' :: after := by
    rw [List.append_assoc, List.dropWhile_append_of_pos hskip]
    simp
  have hlast : upToLast? '}' ('{' :: inner ++ '}' :: after) = some ('{' :: inner ++ ['}']) := by
    rw [upToLast?, List.reverse_append, List.reverse_cons, List.append_assoc,
      List.dropWhile_append_of_pos hskip']
    simp
  rw [braced, hfirst]
  simp only [List.cons_append] at hlast ⊢
  rw [hlast, Option.getD_some]

/-- Names do not matter for whether a program can be stored. -/
theorem IsStorable.rename {p : Program} (h : p.IsStorable) (name? : Option String) :
    (p.rename name?).IsStorable := by
  cases name? with
  | none => exact h
  | some name => exact ⟨h.main, h.macros, h.nesting⟩

/-- A program has the same floats under every name. -/
theorem floats_rename (p : Program) (name? : Option String) :
    (p.rename name?).toJson.floats = p.toJson.floats := by
  cases name? with
  | none => rfl
  | some name => rfl

variable {p : Program}

/-- Every spelling of the document of a program is read back, whatever is written before and after
it, as long as no brace in it could be taken for one of the document. -/
theorem ofText_of_spells (hp : p.IsStorable)
    (hfloats : ∀ x ∈ p.toJson.floats, Json.ReadsBack x) {body : String} (before after : String)
    (hbody : p.toJson.Spells body.toList) (hbefore : '{' ∉ before.toList)
    (hafter : '}' ∉ after.toList) : ofText (before ++ body ++ after) = .ok p := by
  have hread : Json.read? body.toList = some p.toJson :=
    Json.read?_of_spells hbody ⟨fun _ hn => fitsWord_of_mem_toJson hp hn,
      fun x hx => hfloats x (Json.mem_floats.mpr hx)⟩
  obtain ⟨inner, htext, -⟩ := hbody
  obtain ⟨before', after', hbefore', hafter', htrim⟩ :=
    Text.trim_eq '{' '}' (by decide) (by decide) before.toList inner
      after.toList
  have hbraced : braced (Text.trim (before ++ body ++ after).toList) = body.toList := by
    have hlist : (before ++ body ++ after).toList =
        before.toList ++ '{' :: inner ++ '}' :: after.toList := by simp [htext]
    rw [hlist, htrim, htext]
    exact braced_eq (fun h => hbefore (hbefore' h)) fun h => hafter (hafter' h)
  rw [ofText, hbraced, hread, Option.bind_some, ofJson?_toJson hp]
  rfl

/-- The text of a program consists of a spelling of its document and what is written around it. -/
theorem toText_eq (p : Program) (o : EmitOptions) : ∃ body,
    (p.rename o.entryPoint?).toJson.Spells body.toList ∧
      p.toText o = o.wrapStart ++ body ++ o.wrapEnd := by
  have hindentation : Json.IsGap indentation.toList := by
    intro c hc
    simp only [indentation, String.reduceToList, List.mem_cons, List.not_mem_nil, or_false,
      or_self] at hc
    rw [hc]
    rfl
  cases hminify : o.minify with
  | true => exact ⟨_, Json.compact_spells _, by rw [toText, hminify, if_pos rfl]⟩
  | false =>
    refine ⟨_, Json.indented_spells hindentation 0 _, ?_⟩
    rw [toText, hminify, if_neg Bool.false_ne_true]
    rfl

/-- The text of a program is read back as the program under its new name, after removing what was
written around it; it is also read back as it stands if no opening brace was written before it and
no closing one behind it. -/
theorem ofText_toText (hp : p.IsStorable)
    (hfloats : ∀ x ∈ p.toJson.floats, Json.ReadsBack x) (o : EmitOptions) :
    ofText (o.unwrap (p.toText o)) = .ok (p.rename o.entryPoint?) ∧
      ('{' ∉ o.wrapStart.toList → '}' ∉ o.wrapEnd.toList →
        ofText (p.toText o) = .ok (p.rename o.entryPoint?)) := by
  have hstored := hp.rename o.entryPoint?
  have hread : ∀ x ∈ (p.rename o.entryPoint?).toJson.floats, Json.ReadsBack x := by
    rw [floats_rename]
    exact hfloats
  obtain ⟨body, hbody, htext⟩ := toText_eq p o
  rw [htext, EmitOptions.unwrap_wrap]
  constructor
  · simpa using ofText_of_spells hstored hread "" "" hbody (by simp) (by simp)
  · exact fun hstart hend => ofText_of_spells hstored hread _ _ hbody hstart hend

/-- A program with a constant of every kind, with braces and quotes in its texts, and with a macro
that sees another one. -/
def sample : Program :=
  let constants := Value.seq [.null, .bool true, .int (-7), .float 1.5, .ofString "\x7b\"\\",
    .map [("\x7d", .int 1), ("b\n", .seq [])]]
  let body := #[.emitRaw "\x7d", .loadConst constants, .applyFilter 0 2, .pushContext true, .emit]
  let called : MacroDecl :=
    { name := "m", params := ["a"], siblings := [("n", 1)],
      code := { instructions := #[.lookup "a", .emit], lines := #[⟨0, 0, 3⟩] } }
  { name := "page", autoescape := true, files := #["page", "base"], filters := #["upper"],
    tags := ["card"], main := { instructions := body, lines := #[⟨0, 0, 1⟩, ⟨4, 1, 2⟩] },
    macros := #[called] }

/-- The sample is read back from an assignment to a variable, under another name. -/
theorem ofText_toText_sample :
    sample.IsStorable ∧ (∀ x ∈ sample.toJson.floats, Json.ReadsBack x) ∧
      let o : EmitOptions :=
        { entryPoint? := some "header", wrapStart := "exports = ", wrapEnd := ";\n" }
      ofText (o.unwrap (sample.toText o)) = .ok { sample with name := "header" } ∧
        ofText (sample.toText o) = .ok { sample with name := "header" } := by
  have hstored : sample.IsStorable :=
    ⟨by decide +kernel, by decide +kernel, by decide +kernel⟩
  have hfloats : ∀ x ∈ sample.toJson.floats, Json.ReadsBack x := by
    intro x hx
    rw [show sample.toJson.floats = [1.5] from rfl, List.mem_singleton] at hx
    rw [hx]
    rfl
  have hread := ofText_toText hstored hfloats
    { entryPoint? := some "header", wrapStart := "exports = ", wrapEnd := ";\n" }
  exact ⟨hstored, hfloats, hread.1, hread.2 (by decide) (by decide)⟩

end Program

end Templating
