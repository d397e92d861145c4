import Templating.Proofs.Text.Markup
import Templating.Value.Arithmetic
import Templating.Value.Json

/-!
# Values without markup

What matters for escaping are the texts in a value, at any depth. A safe text is written as it is,
so that a value is harmless if no tag begins in its safe texts. If no tag begins in any of its
texts, the keys of maps included, it is harmless however it is written. Both are one notion here,
which counts all texts or the safe ones only.
-/

namespace Templating

namespace Entries

variable {entries : Entries} {v : Value}

/-- A value stored under a key is among the entries. -/
theorem mem_of_get? {key : String} (h : get? entries key = some v) :
    (key, v) ∈ entries := by
  induction entries with
  | nil => simp [get?] at h
  | cons e rest ih =>
    obtain ⟨k, w⟩ := e
    rw [get?] at h
    split at h
    · rename_i hkey
      rw [hkey, Option.some.inj h]
      exact List.mem_cons_self
    · exact List.mem_cons_of_mem _ (ih h)

/-- Storing a value adds it, and changes no other entry. -/
theorem mem_insert {key : String} {e : String × Value} (h : e ∈ insert entries key v) :
    e ∈ entries ∨ e = (key, v) := by
  induction entries with
  | nil => exact .inr (List.mem_singleton.mp h)
  | cons first rest ih =>
    obtain ⟨k, w⟩ := first
    rw [insert] at h
    split at h
    · rename_i hkey
      rcases List.mem_cons.mp h with rfl | h
      · exact .inr (by rw [hkey])
      · exact .inl (List.mem_cons_of_mem _ h)
    · rcases List.mem_cons.mp h with rfl | h
      · exact .inl List.mem_cons_self
      · exact (ih h).imp_left (List.mem_cons_of_mem _)

/-- Storing entries one after the other adds nothing else. -/
theorem mem_foldl_insert {done : Entries} {e : String × Value}
    (h : e ∈ entries.foldl (fun acc (k, v) => insert acc k v) done) : e ∈ done ∨ e ∈ entries := by
  induction entries generalizing done with
  | nil => exact .inl h
  | cons entry rest ih =>
    rcases ih h with h | h
    · exact (mem_insert h).imp_right fun heq => List.mem_cons.mpr (.inl heq)
    · exact .inr (List.mem_cons_of_mem _ h)

end Entries

namespace Value

mutual

/-- The texts in a value, each with whether it is safe. The keys of a map are not safe. -/
def texts : Value → List (String × Bool)
  | undefined => []
  | null => []
  | bool _ => []
  | int _ => []
  | float _ => []
  | text s safe => [(s, safe)]
  | seq items => textsOfItems items
  | map entries => textsOfEntries entries
  | callable .. => []

/-- The texts in items. -/
def textsOfItems : List Value → List (String × Bool)
  | [] => []
  | v :: rest => texts v ++ textsOfItems rest

/-- The texts in entries, keys included. -/
def textsOfEntries : List (String × Value) → List (String × Bool)
  | [] => []
  | (key, v) :: rest => (key, false) :: (texts v ++ textsOfEntries rest)

end

attribute [local simp] texts textsOfItems textsOfEntries

/-- No tag begins in the safe texts of a value, and in strict terms in any of its texts. -/
def Inert (strict : Bool) (v : Value) : Prop :=
  ∀ t ∈ v.texts, (strict || t.2) = true → Text.Inert t.1.toList

instance (strict : Bool) (v : Value) : Decidable (v.Inert strict) :=
  inferInstanceAs (Decidable (∀ t ∈ v.texts, (strict || t.2) = true → Text.Inert t.1.toList))

/-- No tag begins in the safe texts of a value. -/
abbrev Harmless (v : Value) : Prop := v.Inert false

variable {strict : Bool} {v : Value} {items : List Value} {entries : Entries}

@[simp] theorem inert_undefined : undefined.Inert strict := by simp [Inert]

@[simp] theorem inert_null : null.Inert strict := by simp [Inert]

@[simp] theorem inert_bool {b : Bool} : (bool b).Inert strict := by simp [Inert]

@[simp] theorem inert_int {n : Int64} : (int n).Inert strict := by simp [Inert]

@[simp] theorem inert_float {x : Float} : (float x).Inert strict := by simp [Inert]

@[simp] theorem inert_callable {id : Nat} {name : String} : (callable id name).Inert strict := by
  simp [Inert]

@[simp] theorem inert_text {s : String} {safe : Bool} :
    (text s safe).Inert strict ↔ ((strict || safe) = true → Text.Inert s.toList) := by
  simp [Inert]

@[simp] theorem inert_ofString {s : String} :
    (ofString s).Inert strict ↔ (strict = true → Text.Inert s.toList) := by
  simp [ofString]

@[simp] theorem inert_seq : (seq items).Inert strict ↔ ∀ v ∈ items, v.Inert strict := by
  simp only [Inert, texts]
  induction items with
  | nil => simp
  | cons v rest ih => simp only [textsOfItems, List.forall_mem_append, ih, List.forall_mem_cons]

@[simp] theorem inert_map : (map entries).Inert strict ↔
    ∀ e ∈ entries, (strict = true → Text.Inert e.1.toList) ∧ e.2.Inert strict := by
  simp only [Inert, texts]
  induction entries with
  | nil => simp
  | cons e rest ih =>
    simp only [textsOfEntries, List.forall_mem_cons, List.forall_mem_append, ih, Bool.or_false,
      and_assoc]

@[simp] theorem inert_ofInt {n : Int} : (ofInt n).Inert strict := by
  unfold ofInt
  split <;> simp

@[simp] theorem inert_ofNat {n : Nat} : (ofNat n).Inert strict := inert_ofInt

/-- A value without markup is harmless. -/
theorem Inert.harmless (h : v.Inert true) : v.Harmless := fun t ht _ => h t ht rfl

/-- An item or the undefined value. -/
theorem inert_getD (h : ∀ v ∈ items, v.Inert strict) {v? : Option Value}
    (hv : ∀ v ∈ v?, v ∈ items) : (v?.getD undefined).Inert strict := by
  cases v? with
  | none => exact inert_undefined
  | some v => exact h v (hv v rfl)

/-! ## Texts of values -/

/-- Joined texts are free of markup if each of them is. -/
theorem inert_comma {first second : String} (hfirst : Text.Inert first.toList)
    (hsecond : Text.Inert second.toList) : Text.Inert (first ++ "," ++ second).toList := by
  simp [hfirst, hsecond]

/-- The text of an integer. -/
theorem inert_intText (n : Int) : Text.Inert (Number.intText n).toList :=
  Text.inert_of_isNumberChar fun _ => Json.isNumberChar_of_mem_intText

/-- The digits of a number. -/
theorem inert_toDigits (n : Nat) : Text.Inert (Nat.toDigits 10 n) :=
  Text.inert_of_isNumberChar (Json.IsNumeral.toDigits n).all

/-- A run of zeros. -/
theorem inert_zeros (n : Nat) : Text.Inert (Number.zeros n).toList :=
  Text.inert_of_isNumberChar fun _ => Json.isNumberChar_of_mem_zeros

/-- The digits of a float, however they are laid out. -/
theorem inert_decimalText (style : Number.FloatStyle) (d : Number.Decimal) :
    Text.Inert (d.text style).toList := by
  have hdigits := inert_toDigits d.digits
  rw [← Json.toList_toString] at hdigits
  have hzeros := inert_zeros
  simp only [Number.Decimal.text]
  generalize toString d.digits = digits at hdigits
  split
  · split
    · split <;> simp [hdigits, hzeros]
    · split
      · have htake (k : Nat) : Text.Inert (digits.toList.take k) :=
          hdigits.of_subset (List.take_subset _ _)
        have hdrop (k : Nat) : Text.Inert (digits.toList.drop k) :=
          hdigits.of_subset (List.drop_subset _ _)
        simp [htake, hdrop]
      · simp [hdigits, hzeros]
  · have hpower := inert_intText (digits.length + d.exponent - 1)
    simp only [String.toList_append, Text.inert_append]
    refine ⟨⟨⟨?_, by decide⟩, ?_⟩, hpower⟩
    · split
      · simp
      · next c hc => simpa [hc] using hdigits
      · next c cs _ hcs => simpa [hcs] using hdigits
    · split <;> decide

/-- The text of a float, if the names of those that are no numbers are free of markup. -/
theorem inert_floatText {style : Number.FloatStyle} (hnan : Text.Inert style.nan.toList)
    (hinfinity : Text.Inert style.infinity.toList)
    (hnegative : Text.Inert style.negativeInfinity.toList) (x : Float) :
    Text.Inert (Number.floatText style x).toList := by
  have hwhole (m : Nat) (e : Int) := inert_toDigits (Number.Binary.truncated m e)
  have htext := inert_decimalText style
  unfold Number.floatText
  split
  · exact hnan
  · exact hinfinity
  · exact hnegative
  · split_ifs <;> simp [hwhole, htext]

mutual

/-- A value without markup is displayed without markup. -/
theorem Inert.display : ∀ {v : Value}, v.Inert true → Text.Inert v.display.toList
  | undefined, _ | null, _ | callable .., _ => by simp [Value.display]
  | bool b, _ => by cases b <;> decide
  | int n, _ => inert_intText n.toInt
  | float x, _ => inert_floatText (by decide) (by decide) (by decide) x
  | text s _, h => inert_text.mp h rfl
  | seq items, h => inert_displayItems (inert_seq.mp h)
  | map _, _ => by
    rw [Value.display]
    decide

/-- Items without markup are displayed without markup. -/
theorem inert_displayItems : ∀ {items : List Value}, (∀ v ∈ items, v.Inert true) →
    Text.Inert (displayItems items).toList
  | [], _ => by simp [displayItems]
  | [v], h => by
    rw [displayItems]
    exact (h v List.mem_cons_self).display
  | v :: w :: rest, h => by
    obtain ⟨hv, hrest⟩ := List.forall_mem_cons.mp h
    rw [displayItems]
    exact inert_comma hv.display (inert_displayItems hrest)

end

/-- A string of a document. -/
theorem inert_quoted {s : String} (h : Text.Inert s.toList) :
    Text.Inert (Json.quoted s).toList := by
  have hdigit : ∀ n < 16, Json.lowerHex n ≠ '<' := by decide
  have hescape : Text.Inert (s.toList.flatMap Json.escapeChar) := by
    refine Text.inert_flatMap fun c hc => ?_
    unfold Json.escapeChar
    split_ifs
    all_goals first | decide | skip
    · rename_i hcontrol
      simp [hdigit _ (show c.toNat / 16 < 16 by omega), hdigit _ (Nat.mod_lt c.toNat (by decide))]
    · simp [h.ne hc]
  simp [Json.quoted, hescape]

/-- The text of a float in a document. -/
theorem inert_jsonFloat (x : Float) : Text.Inert (Number.floatText .json x).toList :=
  inert_floatText (by decide) (by decide) (by decide) x

mutual

/-- The document of a value without markup, in one line. -/
theorem Inert.compact : ∀ {v : Value}, v.Inert true → Text.Inert v.toJson.compact.toList
  | undefined, _ | null, _ | callable .., _ => by
    change Text.Inert "null".toList
    decide
  | bool b, _ => by cases b <;> decide
  | int n, _ => inert_intText n.toInt
  | float x, _ => inert_jsonFloat x
  | text s _, h => inert_quoted (inert_text.mp h rfl)
  | seq items, h => by
    simp [toJson, Json.compact, inert_compactItems (inert_seq.mp h)]
  | map entries, h => by
    simp [toJson, Json.compact, inert_compactMembers (inert_map.mp h)]

/-- The documents of items without markup, in one line. -/
theorem inert_compactItems : ∀ {items : List Value}, (∀ v ∈ items, v.Inert true) →
    Text.Inert (Json.compactItems (toJsonItems items)).toList
  | [], _ => by decide
  | [v], h => (h v List.mem_cons_self).compact
  | v :: w :: rest, h => by
    obtain ⟨hv, hrest⟩ := List.forall_mem_cons.mp h
    exact inert_comma hv.compact (inert_compactItems hrest)

/-- The documents of entries without markup, in one line. -/
theorem inert_compactMembers : ∀ {entries : Entries},
    (∀ e ∈ entries, (true = true → Text.Inert e.1.toList) ∧ e.2.Inert true) →
    Text.Inert (Json.compactMembers (toJsonEntries entries)).toList
  | [], _ => by decide
  | [(key, v)], h => by
    obtain ⟨hkey, hv⟩ := h (key, v) List.mem_cons_self
    simp [toJsonEntries, Json.compactMembers, inert_quoted (hkey rfl), hv.compact]
  | (key, v) :: e :: rest, h => by
    obtain ⟨⟨hkey, hv⟩, hrest⟩ := List.forall_mem_cons.mp h
    have hmore := inert_compactMembers hrest
    simp only [toJsonEntries] at hmore ⊢
    simp [Json.compactMembers, inert_quoted (hkey rfl), hv.compact, hmore]

end

/-- A new line with its indentation. -/
theorem inert_newLine (width depth : Nat) :
    Text.Inert (Json.newLine (String.ofList (List.replicate width ' ')) depth).toList := by
  have hspace : Text.Inert (List.replicate width ' ') := fun h =>
    absurd (List.eq_of_mem_replicate h) (by decide)
  rw [Json.newLine, String.toList_append, String.toList_join]
  refine Text.inert_append.mpr ⟨by decide, fun h => ?_⟩
  obtain ⟨s, hs, h⟩ := List.mem_flatMap.mp h
  rw [List.eq_of_mem_replicate hs, String.toList_ofList] at h
  exact hspace h

section

variable (width : Nat)

mutual

/-- The document of a value without markup, indented by spaces. -/
theorem Inert.indented : ∀ {v : Value} (depth : Nat), v.Inert true →
    Text.Inert (v.toJson.indented (String.ofList (List.replicate width ' ')) depth).toList
  | undefined, _, h | null, _, h | bool _, _, h | int _, _, h | float _, _, h | text .., _, h
  | callable .., _, h => h.compact
  | seq [], _, _ => by
    change Text.Inert "[]".toList
    decide
  | seq (v :: items), depth, h => by
    have hitems := inert_indentedItems (depth + 1) (inert_seq.mp h)
    have hline := inert_newLine width depth
    simp only [toJsonItems] at hitems
    simp [toJson, toJsonItems, Json.indented, hitems, hline]
  | map [], _, _ => by
    change Text.Inert "\x7b\x7d".toList
    decide
  | map ((key, v) :: entries), depth, h => by
    have hentries := inert_indentedMembers (depth + 1) (inert_map.mp h)
    have hline := inert_newLine width depth
    simp only [toJsonEntries] at hentries
    simp [toJson, toJsonEntries, Json.indented, hentries, hline]

/-- The documents of items without markup, indented by spaces. -/
theorem inert_indentedItems : ∀ {items : List Value} (depth : Nat), (∀ v ∈ items, v.Inert true) →
    Text.Inert (Json.indentedItems (String.ofList (List.replicate width ' ')) depth
      (toJsonItems items)).toList
  | [], _, _ => by
    change Text.Inert "".toList
    decide
  | [v], depth, h => by
    have hv := (h v List.mem_cons_self).indented depth
    simp [toJsonItems, Json.indentedItems, inert_newLine, hv]
  | v :: w :: rest, depth, h => by
    obtain ⟨hv, hrest⟩ := List.forall_mem_cons.mp h
    have hv := hv.indented depth
    have hmore := inert_indentedItems depth hrest
    simp only [toJsonItems] at hmore ⊢
    simp [Json.indentedItems, inert_newLine, hv, hmore]

/-- The documents of entries without markup, indented by spaces. -/
theorem inert_indentedMembers : ∀ {entries : Entries} (depth : Nat),
    (∀ e ∈ entries, (true = true → Text.Inert e.1.toList) ∧ e.2.Inert true) →
    Text.Inert (Json.indentedMembers (String.ofList (List.replicate width ' ')) depth
      (toJsonEntries entries)).toList
  | [], _, _ => by
    change Text.Inert "".toList
    decide
  | [(key, v)], depth, h => by
    obtain ⟨hkey, hv⟩ := h (key, v) List.mem_cons_self
    have hv := hv.indented depth
    simp [toJsonEntries, Json.indentedMembers, inert_newLine, inert_quoted (hkey rfl), hv]
  | (key, v) :: e :: rest, depth, h => by
    obtain ⟨⟨hkey, hv⟩, hrest⟩ := List.forall_mem_cons.mp h
    have hv := hv.indented depth
    have hmore := inert_indentedMembers depth hrest
    simp only [toJsonEntries] at hmore ⊢
    simp [Json.indentedMembers, inert_newLine, inert_quoted (hkey rfl), hv, hmore]

end

end

/-! ## Lookups -/

/-- Counting the items of a value. -/
theorem inert_lengthValue (v : Value) : v.lengthValue.Inert strict := by
  unfold lengthValue
  split <;> simp

/-- The item at a place. -/
theorem inert_itemAt (h : ∀ v ∈ items, v.Inert strict) (index : Int) :
    (itemAt items index).Inert strict := by
  simp only [itemAt]
  generalize (if index < 0 then (items.length : Int) + index else index) = i
  split
  · exact inert_undefined
  · exact inert_getD h fun v hv => List.mem_of_getElem? hv

/-- An attribute of a value. -/
theorem Inert.attr (h : v.Inert strict) (name : String) : (v.attr name).Inert strict := by
  unfold Value.attr
  split
  · rename_i entries
    cases hget : Entries.get? entries name with
    | none => exact inert_undefined
    | some w => exact (inert_map.mp h _ (Entries.mem_of_get? hget)).2
  · rename_i items
    split
    · exact inert_lengthValue _
    · split
      · exact inert_getD (inert_seq.mp h) fun v hv => List.mem_of_getElem? hv
      · exact inert_undefined
  · split
    · exact inert_lengthValue _
    · exact inert_undefined
  · exact inert_undefined

/-- An item of a value that is harmless. -/
theorem Inert.item (h : v.Harmless) (key : Value) : (v.item key).Harmless := by
  unfold Value.item
  split
  · split
    · exact inert_itemAt (inert_seq.mp h) _
    · split
      · exact h.attr _
      · exact inert_undefined
  · split
    · split
      · split
        · simp [ofChar]
        · exact inert_undefined
      · exact inert_undefined
    · split
      · exact h.attr _
      · exact inert_undefined
  · split
    · exact h.attr _
    · exact inert_undefined
    · exact inert_undefined
    · exact h.attr _
  · exact inert_undefined

/-- The pairs a loop over a harmless value visits. -/
theorem Inert.pairs (h : v.Harmless) : ∀ p ∈ v.pairs, p.1.Harmless ∧ p.2.Harmless := by
  intro p hp
  cases v with
  | seq items =>
    obtain ⟨⟨w, i⟩, hw, rfl⟩ := List.mem_map.mp hp
    exact ⟨inert_ofNat, inert_seq.mp h w (List.fst_mem_of_mem_zipIdx hw)⟩
  | map entries =>
    obtain ⟨e, he, rfl⟩ := List.mem_map.mp hp
    exact ⟨by simp, (inert_map.mp h e he).2⟩
  | _ => exact absurd hp List.not_mem_nil

/-! ## Operators -/

/-- A numeric operator gives a number. -/
theorem inert_exactly {op : String} {a b : Int64} {result? : Option Int64} {w : Value}
    (h : exactly op a b result? = .ok w) : w.Harmless := by
  unfold exactly at h
  split at h
  · obtain rfl := Except.ok.inj h
    exact inert_int
  · simp [fail] at h

/-- A numeric operator gives a number. -/
theorem inert_numeric {op : String} {onInts : Int64 → Int64 → Option Int64}
    {onFloats : Float → Float → Float} {a b w : Value}
    (h : numeric op onInts onFloats a b = .ok w) : w.Harmless := by
  unfold numeric at h
  split at h
  · exact inert_exactly h
  · obtain rfl := Except.ok.inj h
    exact inert_float
  · simp [fail] at h

/-- The sum of harmless values. -/
theorem Inert.add {a b w : Value} (ha : a.Harmless) (hb : b.Harmless) (h : add a b = .ok w) :
    w.Harmless := by
  unfold Value.add at h
  split at h
  · exact Except.ok.inj h ▸ hb
  · exact Except.ok.inj h ▸ ha
  · obtain rfl := Except.ok.inj h
    simp [concat]
  · obtain rfl := Except.ok.inj h
    simp [concat]
  · obtain rfl := Except.ok.inj h
    refine inert_seq.mpr fun v hv => ?_
    exact (List.mem_append.mp hv).elim (inert_seq.mp ha v) (inert_seq.mp hb v)
  · unfold addNumbers at h
    split at h
    · exact inert_exactly h
    · obtain rfl := Except.ok.inj h
      exact inert_float
    · simp [fail] at h

/-- A quotient is a number. -/
theorem inert_div {a b w : Value} (h : div a b = .ok w) : w.Harmless := by
  unfold div at h
  split at h
  · obtain rfl := Except.ok.inj h
    exact inert_float
  · simp [fail] at h

/-- A negated value is a number or undefined. -/
theorem inert_neg {w : Value} (h : neg v = .ok w) : w.Harmless := by
  unfold neg at h
  split at h
  · split at h
    · obtain rfl := Except.ok.inj h
      exact inert_int
    · simp [fail] at h
  · obtain rfl := Except.ok.inj h
    exact inert_float
  · obtain rfl := Except.ok.inj h
    exact inert_undefined
  · simp [fail] at h

end Value

end Templating
