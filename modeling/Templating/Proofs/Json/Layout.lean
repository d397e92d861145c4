import Templating.Proofs.Json.Spelling

/-!
# Both layouts spell their document

The compact text of a document and its indented text, whatever white space it is indented with, are
spellings of the document, and so both are read as the document.
-/

namespace Templating.Json

/-- No text is white space. -/
theorem isGap_nil : IsGap [] := fun _ hc => absurd hc (by simp)

/-- A text without white space around it. -/
theorem Padded.refl {text : List Char → Prop} {cs : List Char} (h : text cs) : Padded text cs :=
  ⟨[], cs, [], by simp, isGap_nil, isGap_nil, h⟩

mutual

/-- The compact text spells the document. -/
theorem compact_spells : ∀ j : Json, j.Spells j.compact.toList
  | null => rfl
  | bool _ => rfl
  | int _ => rfl
  | float _ => rfl
  | text _ => rfl
  | array items => ⟨(compactItems items).toList, by simp [compact], compactItems_spells items⟩
  | object members =>
    ⟨(compactMembers members).toList, by simp [compact], compactMembers_spells members⟩

/-- The compact text of items spells the items. -/
theorem compactItems_spells : ∀ items : List Json, SpellsItems items (compactItems items).toList
  | [] => isGap_nil
  | [j] => .refl (compact_spells j)
  | j :: k :: rest =>
    ⟨j.compact.toList, (compactItems (k :: rest)).toList, by simp [compactItems],
      .refl (compact_spells j), compactItems_spells (k :: rest)⟩

/-- The compact text of members spells the members. -/
theorem compactMembers_spells : ∀ members : List (String × Json),
    SpellsMembers members (compactMembers members).toList
  | [] => isGap_nil
  | [(name, j)] =>
    ⟨(quoted name).toList, j.compact.toList, by simp [compactMembers], .refl rfl,
      .refl (compact_spells j)⟩
  | (name, j) :: m :: rest =>
    ⟨(quoted name ++ ":" ++ j.compact).toList, (compactMembers (m :: rest)).toList,
      by simp [compactMembers],
      ⟨(quoted name).toList, j.compact.toList, by simp, .refl rfl, .refl (compact_spells j)⟩,
      compactMembers_spells (m :: rest)⟩

end

section

variable {step : String} (hstep : IsGap step.toList)

include hstep

/-- A new line with its indentation are white space. -/
theorem newLine_isGap (depth : Nat) : IsGap (newLine step depth).toList := by
  intro c hc
  simp only [newLine, String.toList_append, String.reduceToList, String.toList_join,
    List.mem_append, List.mem_singleton, List.mem_flatMap] at hc
  rcases hc with rfl | ⟨s, hs, hc⟩
  · decide
  · exact hstep c (List.eq_of_mem_replicate hs ▸ hc)

mutual

/-- The indented text spells the document. -/
theorem indented_spells : ∀ (depth : Nat) (j : Json), j.Spells (indented step depth j).toList
  | _, null => rfl
  | _, bool _ => rfl
  | _, int _ => rfl
  | _, float _ => rfl
  | _, text _ => rfl
  | _, array [] => ⟨[], by simp [indented], isGap_nil⟩
  | depth, array (j :: items) =>
    ⟨(indentedItems step (depth + 1) (j :: items)).toList ++ (newLine step depth).toList,
      by simp [indented], indentedItems_spells (depth + 1) (j :: items) (List.cons_ne_nil _ _)
        (newLine_isGap hstep depth)⟩
  | _, object [] => ⟨[], by simp [indented], isGap_nil⟩
  | depth, object (m :: members) =>
    ⟨(indentedMembers step (depth + 1) (m :: members)).toList ++ (newLine step depth).toList,
      by simp [indented], indentedMembers_spells (depth + 1) (m :: members) (List.cons_ne_nil _ _)
        (newLine_isGap hstep depth)⟩

/-- The lines of items spell the items, also with white space behind them. -/
theorem indentedItems_spells : ∀ (depth : Nat) (items : List Json) {gap : List Char}, items ≠ [] →
    IsGap gap → SpellsItems items ((indentedItems step depth items).toList ++ gap)
  | _, [], _, hne, _ => absurd rfl hne
  | depth, [j], gap, _, hgap =>
    ⟨(newLine step depth).toList, (indented step depth j).toList, gap, by simp [indentedItems],
      newLine_isGap hstep depth, hgap, indented_spells depth j⟩
  | depth, j :: k :: rest, gap, _, hgap =>
    ⟨(newLine step depth ++ indented step depth j).toList,
      (indentedItems step depth (k :: rest)).toList ++ gap, by simp [indentedItems],
      ⟨(newLine step depth).toList, (indented step depth j).toList, [], by simp,
        newLine_isGap hstep depth, isGap_nil, indented_spells depth j⟩,
      indentedItems_spells depth (k :: rest) (List.cons_ne_nil _ _) hgap⟩

/-- The lines of members spell the members, also with white space behind them. -/
theorem indentedMembers_spells : ∀ (depth : Nat) (members : List (String × Json))
    {gap : List Char}, members ≠ [] → IsGap gap →
      SpellsMembers members ((indentedMembers step depth members).toList ++ gap)
  | _, [], _, hne, _ => absurd rfl hne
  | depth, [(name, j)], gap, _, hgap =>
    ⟨(newLine step depth ++ quoted name).toList, ' ' :: (indented step depth j).toList ++ gap,
      by simp [indentedMembers],
      ⟨(newLine step depth).toList, _, [], by simp, newLine_isGap hstep depth, isGap_nil,
        rfl⟩,
      ⟨[' '], (indented step depth j).toList, gap, rfl, by simp [IsGap, isSpace], hgap,
        indented_spells depth j⟩⟩
  | depth, (name, j) :: m :: rest, gap, _, hgap =>
    ⟨(newLine step depth ++ quoted name ++ ": " ++ indented step depth j).toList,
      (indentedMembers step depth (m :: rest)).toList ++ gap, by simp [indentedMembers],
      ⟨(newLine step depth ++ quoted name).toList, ' ' :: (indented step depth j).toList,
        by simp,
        ⟨(newLine step depth).toList, _, [], by simp, newLine_isGap hstep depth, isGap_nil,
          rfl⟩,
        ⟨[' '], (indented step depth j).toList, [], by simp, by simp [IsGap, isSpace],
          isGap_nil, indented_spells depth j⟩⟩,
      indentedMembers_spells depth (m :: rest) (List.cons_ne_nil _ _) hgap⟩

end

end

/-- The compact text of a readable document is read as the document. -/
theorem read?_compact {j : Json} (hj : j.IsReadable) : read? j.compact.toList = some j :=
  read?_of_spells (compact_spells j) hj

/-- The indented text of a readable document is read as the document. -/
theorem read?_pretty {step : String} {j : Json} (hstep : IsGap step.toList) (hj : j.IsReadable) :
    read? (j.pretty step).toList = some j :=
  read?_of_spells (indented_spells hstep 0 j) hj

end Templating.Json
