import Templating.Proofs.Json.Spelling

/-!
# What a document is written as

JSON has no infinite numbers and nothing that is not a number: such floats are written as null. So
the text of a document is also the text of the one with null in their place, and that one is what is
read back.
-/

namespace Templating

namespace Json

mutual

/-- The document with null in place of floats that are not finite. -/
def asWritten : Json → Json
  | float x => if x.isFinite then float x else null
  | array items => array (itemsAsWritten items)
  | object members => object (membersAsWritten members)
  | j => j

/-- The items with null in place of floats that are not finite. -/
def itemsAsWritten : List Json → List Json
  | [] => []
  | j :: rest => asWritten j :: itemsAsWritten rest

/-- The members with null in place of floats that are not finite. -/
def membersAsWritten : List (String × Json) → List (String × Json)
  | [] => []
  | (name, j) :: rest => (name, asWritten j) :: membersAsWritten rest

end

/-- Truth values are written as they are. -/
@[simp]
theorem asWritten_bool (b : Bool) : (bool b).asWritten = bool b := rfl

/-- Integers are written as they are. -/
@[simp]
theorem asWritten_int (n : Int) : (int n).asWritten = int n := rfl

/-- Texts are written as they are. -/
@[simp]
theorem asWritten_text (s : String) : (text s).asWritten = text s := rfl

/-- An array is written item by item. -/
@[simp]
theorem asWritten_array (items : List Json) :
    (array items).asWritten = array (items.map asWritten) := by
  rw [asWritten]
  congr 1
  induction items with
  | nil => rfl
  | cons j rest ih => rw [itemsAsWritten, ih, List.map_cons]

/-- An object is written member by member. -/
@[simp]
theorem asWritten_object (members : List (String × Json)) :
    (object members).asWritten = object (members.map fun m => (m.1, m.2.asWritten)) := by
  rw [asWritten]
  congr 1
  induction members with
  | nil => rfl
  | cons m rest ih => rw [membersAsWritten, ih, List.map_cons]

mutual

/-- The floats of a document as it is written are those of the document that are finite. -/
theorem mem_scalars_asWritten {x : Float} : ∀ {j : Json}, float x ∈ j.asWritten.scalars →
    float x ∈ j.scalars ∧ x.isFinite = true
  | null, h | bool _, h | int _, h | text _, h => by simp [asWritten, scalars] at h
  | float y, h => by
    rw [asWritten] at h
    split at h
    · next hy =>
      obtain rfl : x = y := by simpa [scalars] using h
      exact ⟨h, hy⟩
    · simp [scalars] at h
  | array _, h => mem_scalarsOfItems_asWritten h
  | object _, h => mem_scalarsOfMembers_asWritten h

/-- The floats of items as they are written are those of the items that are finite. -/
theorem mem_scalarsOfItems_asWritten {x : Float} : ∀ {items : List Json},
    float x ∈ scalarsOfItems (itemsAsWritten items) →
      float x ∈ scalarsOfItems items ∧ x.isFinite = true
  | [], h => by simp [itemsAsWritten, scalarsOfItems] at h
  | j :: rest, h => by
    rw [itemsAsWritten, scalarsOfItems, List.mem_append] at h
    rw [scalarsOfItems, List.mem_append]
    rcases h with h | h
    · exact (mem_scalars_asWritten h).imp_left .inl
    · exact (mem_scalarsOfItems_asWritten h).imp_left .inr

/-- The floats of members as they are written are those of the members that are finite. -/
theorem mem_scalarsOfMembers_asWritten {x : Float} : ∀ {members : List (String × Json)},
    float x ∈ scalarsOfMembers (membersAsWritten members) →
      float x ∈ scalarsOfMembers members ∧ x.isFinite = true
  | [], h => by simp [membersAsWritten, scalarsOfMembers] at h
  | (name, j) :: rest, h => by
    rw [membersAsWritten, scalarsOfMembers, List.mem_append] at h
    rw [scalarsOfMembers, List.mem_append]
    rcases h with h | h
    · exact (mem_scalars_asWritten h).imp_left .inl
    · exact (mem_scalarsOfMembers_asWritten h).imp_left .inr

end

/-- A text with white space around it is one of another kind as well if it is one alone. -/
theorem Padded.mono {text text' : List Char → Prop} (h : ∀ cs, text cs → text' cs)
    {cs : List Char} (hcs : Padded text cs) : Padded text' cs := by
  obtain ⟨before, inner, after, hsplit, hbefore, hafter, hinner⟩ := hcs
  exact ⟨before, inner, after, hsplit, hbefore, hafter, h inner hinner⟩

/-- A text behind a name is one of another kind as well if it is one alone. -/
theorem Labelled.mono {name : String} {text text' : List Char → Prop} (h : ∀ cs, text cs → text' cs)
    {cs : List Char} (hcs : Labelled name text cs) : Labelled name text' cs := by
  obtain ⟨head, tail, hsplit, hhead, htail⟩ := hcs
  exact ⟨head, tail, hsplit, hhead, htail.mono h⟩

mutual

/-- Every text of a document is one of what it is written as. -/
theorem Spells.asWritten : ∀ {j : Json} {cs : List Char}, j.Spells cs → j.asWritten.Spells cs
  | null, _, h | bool _, _, h | int _, _, h | text _, _, h => h
  | float x, cs, h => by
    rw [Json.asWritten]
    split
    · exact h
    · next hx =>
      obtain rfl : cs = (scalarText (float x)).toList := h
      show (Number.floatText .json x).toList = "null".toList
      rw [floatText_of_not_finite (by simpa using hx)]
  | array items, _, ⟨inner, hcs, hinner⟩ => ⟨inner, hcs, spellsItems_asWritten hinner⟩
  | object members, _, ⟨inner, hcs, hinner⟩ => ⟨inner, hcs, spellsMembers_asWritten hinner⟩

/-- Every text of items is one of what they are written as. -/
theorem spellsItems_asWritten : ∀ {items : List Json} {cs : List Char}, SpellsItems items cs →
    SpellsItems (itemsAsWritten items) cs
  | [], _, h => h
  | [j], _, h => Padded.mono (fun _ h => Spells.asWritten (j := j) h) h
  | j :: _ :: _, _, ⟨first, more, hcs, hfirst, hmore⟩ =>
    ⟨first, more, hcs, hfirst.mono fun _ h => Spells.asWritten (j := j) h,
      (spellsItems_asWritten hmore :)⟩

/-- Every text of members is one of what they are written as. -/
theorem spellsMembers_asWritten : ∀ {members : List (String × Json)} {cs : List Char},
    SpellsMembers members cs → SpellsMembers (membersAsWritten members) cs
  | [], _, h => h
  | [(_, j)], _, h => Labelled.mono (fun _ h => Spells.asWritten (j := j) h) h
  | (_, j) :: _ :: _, _, ⟨first, more, hcs, hfirst, hmore⟩ =>
    ⟨first, more, hcs, hfirst.mono fun _ h => Spells.asWritten (j := j) h,
      (spellsMembers_asWritten hmore :)⟩

end

end Json

end Templating
