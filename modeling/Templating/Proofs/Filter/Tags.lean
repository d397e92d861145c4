import Templating.Filter.Builtin
import Templating.Proofs.Text.Markup

/-!
# Removing what looks like a tag

A tag is a stretch from an opening angle bracket to the first closing one after it, with something
between the two. Removing tags joins the text on both sides, but never to another tag: an opening
bracket is kept only if a closing one stands directly behind it, which is kept as well, or if there
is no closing one in all the text behind it. So one pass is enough.
-/

namespace Templating

namespace Text

variable {cs ds inner rest : List Char}

/-- The second text is the first one without some stretches, each from an opening angle bracket to
the first closing one after it. -/
inductive WithoutTags : List Char → List Char → Prop where
  | nil : WithoutTags [] []
  | keep (c : Char) {cs ds : List Char} : WithoutTags cs ds → WithoutTags (c :: cs) (c :: ds)
  | remove {inner cs ds : List Char} : '>' ∉ inner → WithoutTags cs ds →
      WithoutTags ('<' :: inner ++ '>' :: cs) ds

/-- No tag is in the text: every opening angle bracket has a closing one directly behind it, or none
at all. -/
def TagFree (cs : List Char) : Prop :=
  ∀ before after, cs = before ++ '<' :: after → after.head? = some '>' ∨ '>' ∉ after

/-- A closing angle bracket follows, but not directly. -/
theorem closesLater_eq_true_iff :
    closesLater cs = true ↔ cs.head? ≠ some '>' ∧ '>' ∈ cs := by
  cases cs with
  | nil => simp [closesLater]
  | cons c cs =>
    rw [closesLater, Bool.and_eq_true, bne_iff_ne, List.contains_iff_mem, List.head?_cons,
      List.mem_cons]
    constructor
    · exact fun ⟨hne, hmem⟩ => ⟨fun h => hne (Option.some.inj h), .inr hmem⟩
    · rintro ⟨hne, rfl | hmem⟩
      · exact absurd rfl hne
      · exact ⟨fun h => hne (congrArg some h), hmem⟩

/-! ## One pass through the text -/

/-- Inside a tag everything is dropped up to its end. -/
theorem stripTagsFrom_inside (h : '>' ∉ inner) :
    stripTagsFrom true (inner ++ '>' :: rest) = stripTags rest := by
  induction inner with
  | nil => simp [stripTagsFrom, stripTags]
  | cons c inner ih =>
    obtain ⟨hc, hinner⟩ := not_or.mp (List.mem_cons.not.mp h)
    have hne : (c != '>') = true := bne_iff_ne.mpr fun heq => hc heq.symm
    rw [List.cons_append, stripTagsFrom, if_pos rfl, hne, ih hinner]

/-- A tag is removed. -/
theorem stripTags_tag (h : '>' ∉ inner) (hne : inner ≠ []) :
    stripTags ('<' :: inner ++ '>' :: rest) = stripTags rest := by
  have hlater : closesLater (inner ++ '>' :: rest) = true := by
    cases inner with
    | nil => exact absurd rfl hne
    | cons c inner =>
      refine closesLater_eq_true_iff.mpr ⟨?_, by simp⟩
      rintro hhead
      exact h (List.mem_cons.mpr (.inl (Option.some.inj hhead).symm))
  rw [List.cons_append, stripTags, stripTagsFrom, if_neg Bool.false_ne_true, hlater,
    if_pos (by simp), stripTagsFrom_inside h]

/-- A character that begins no tag is kept. -/
theorem stripTags_cons {c : Char} (h : c = '<' → closesLater cs = false) :
    stripTags (c :: cs) = c :: stripTags cs := by
  have hkeep : (c == '<' && closesLater cs) = false := by
    rw [Bool.and_eq_false_imp, beq_iff_eq]
    exact h
  rw [stripTags, stripTagsFrom, if_neg Bool.false_ne_true, hkeep, if_neg Bool.false_ne_true]
  rfl

/-- A text begins with a tag, or with a character that begins none, unless it is empty. What holds
of a text if it holds of what follows its front holds of all texts. -/
theorem tagInduction {P : List Char → Prop} (hnil : P [])
    (htag : ∀ inner rest, '>' ∉ inner → inner ≠ [] → P rest → P ('<' :: inner ++ '>' :: rest))
    (hkeep : ∀ c rest, (c = '<' → closesLater rest = false) → P rest → P (c :: rest))
    (cs : List Char) : P cs := by
  induction hlength : cs.length using Nat.strong_induction_on generalizing cs with
  | _ n ih =>
    cases cs with
    | nil => exact hnil
    | cons c cs =>
      obtain rfl := hlength
      cases hlater : closesLater cs with
      | false => exact hkeep c cs (fun _ => hlater) (ih _ (Nat.lt_succ_self _) cs rfl)
      | true =>
        by_cases hc : c = '<'
        · subst hc
          obtain ⟨hhead, hmem⟩ := closesLater_eq_true_iff.mp hlater
          obtain ⟨inner, rest, rfl, hinner⟩ := List.eq_append_cons_of_mem hmem
          refine htag inner rest hinner ?_ (ih _ ?_ rest rfl)
          · rintro rfl
            exact hhead rfl
          · simp only [List.length_cons, List.length_append]
            omega
        · exact hkeep c cs (fun h => absurd h hc) (ih _ (Nat.lt_succ_self _) cs rfl)

/-- What is left is the text without tags. -/
theorem withoutTags_stripTags (cs : List Char) : WithoutTags cs (stripTags cs) := by
  induction cs using tagInduction with
  | hnil => exact .nil
  | htag inner rest hinner hne ih =>
    rw [stripTags_tag hinner hne]
    exact .remove hinner ih
  | hkeep c rest hc ih =>
    rw [stripTags_cons hc]
    exact .keep c ih

/-! ## No tag is left -/

/-- An opening angle bracket with a closing one directly behind it, or none at all, in front of a
text without tags. -/
theorem TagFree.cons {c : Char} (h : TagFree cs)
    (hc : c = '<' → cs.head? = some '>' ∨ '>' ∉ cs) : TagFree (c :: cs) := by
  intro before after heq
  cases before with
  | nil =>
    obtain ⟨rfl, rfl⟩ := List.cons.inj heq
    exact hc rfl
  | cons x before => exact h before after (List.cons.inj heq).2

/-- A bracket that is kept has a closing one directly behind it, or none at all. -/
theorem tagFree_stripTags (cs : List Char) : TagFree (stripTags cs) := by
  induction cs using tagInduction with
  | hnil =>
    intro before after heq
    simp [stripTags, stripTagsFrom] at heq
  | htag inner rest hinner hne ih =>
    rw [stripTags_tag hinner hne]
    exact ih
  | hkeep c rest hc ih =>
    rw [stripTags_cons hc]
    refine ih.cons fun heq => ?_
    have hlater := hc heq
    by_cases hhead : rest.head? = some '>'
    · -- the closing bracket begins no tag, so it is kept
      obtain ⟨more, rfl⟩ := List.head?_eq_some_iff.mp hhead
      exact .inl (by rw [stripTags_cons fun h => absurd h (by decide), List.head?_cons])
    · have hnone : '>' ∉ rest := fun hmem =>
        absurd (closesLater_eq_true_iff.mpr ⟨hhead, hmem⟩) (by simp [hlater])
      exact .inr fun hmem => hnone (stripTagsFrom_subset false rest hmem)

/-- A text without tags stays as it is. -/
theorem TagFree.stripTags_eq (h : TagFree cs) : stripTags cs = cs := by
  induction cs with
  | nil => rfl
  | cons c cs ih =>
    have hc : c = '<' → closesLater cs = false := by
      rintro rfl
      rw [Bool.eq_false_iff, Ne, closesLater_eq_true_iff]
      rintro ⟨hhead, hmem⟩
      rcases h [] cs rfl with hclosed | hnone
      · exact hhead hclosed
      · exact hnone hmem
    have htail : TagFree cs := fun before after heq => h (c :: before) after (by rw [heq]; rfl)
    rw [stripTags_cons hc, ih htail]

end Text

namespace Filter

/-- The filter removes tags from a string and nothing else. In what is left every opening angle
bracket has a closing one directly behind it, or none at all behind it, and there is nothing left to
remove. -/
theorem striptags_removes (place : FilterPlace) (s : String) :
    ∃ t : String, striptags place (.ofString s) [] = .ok (.ofString t) ∧
      Text.WithoutTags s.toList t.toList ∧
      (∀ before after, t.toList = before ++ '<' :: after →
        after.head? = some '>' ∨ '>' ∉ after) ∧
      striptags place (.ofString t) [] = .ok (.ofString t) := by
  refine ⟨String.ofList (Text.stripTags s.toList), rfl, ?_, ?_, ?_⟩
  · rw [String.toList_ofList]
    exact Text.withoutTags_stripTags s.toList
  · rw [String.toList_ofList]
    exact Text.tagFree_stripTags s.toList
  · have hagain : striptags place (.ofString (String.ofList (Text.stripTags s.toList))) [] =
        .ok (.ofString (String.ofList
          (Text.stripTags (String.ofList (Text.stripTags s.toList)).toList))) := rfl
    rw [hagain, String.toList_ofList, (Text.tagFree_stripTags s.toList).stripTags_eq]

/-- Brackets in brackets, empty ones and one that is never closed. -/
theorem striptags_removes_nested :
    let s := "a<b<c>d<><e>>f<g"
    let t := "ad<>>f<g"
    striptags ⟨"page", true⟩ (.ofString s) [] = .ok (.ofString t) ∧
      Text.WithoutTags s.toList t.toList ∧
      (t.toList = "ad<>>f".toList ++ '<' :: "g".toList ∧
        ("g".toList.head? = some '>' ∨ '>' ∉ "g".toList)) ∧
      striptags ⟨"page", true⟩ (.ofString t) [] = .ok (.ofString t) := by
  intro s t
  have hstrip : String.ofList (Text.stripTags s.toList) = t := by decide +kernel
  have ht : striptags ⟨"page", true⟩ (.ofString s) [] = .ok (.ofString t) := hstrip ▸ rfl
  obtain ⟨t', ht', hwithout, hfree, hagain⟩ := striptags_removes ⟨"page", true⟩ s
  obtain ⟨rfl, -⟩ := Value.text.inj (Except.ok.inj (ht.symm.trans ht'))
  exact ⟨ht, hwithout, ⟨by decide, hfree "ad<>>f".toList "g".toList (by decide)⟩, hagain⟩

end Filter

end Templating
