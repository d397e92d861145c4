import Templating.Proofs.Value.Markup
import Templating.Registry

/-!
# Filters and markup

Which built-in filters make markup where there was none. Of harmless values only the two that exempt
text from escaping make a value that is not harmless. Of values without markup only the one that
decodes percent signs makes markup.
-/

namespace Templating

/-- Reading an argument of a kind gives something with a property. -/
def Arg.Gives {α : Type} (strict : Bool) (a : Arg α) (P : α → Prop) : Prop :=
  ∀ (v? : Option Value) (x : α), (∀ v ∈ v?, v.Inert strict) → a v? = .ok x → P x

namespace Arg

variable {α : Type} {strict : Bool}

/-- Any value is taken as it is. -/
theorem any_gives : any.Gives strict (Value.Inert strict) := by
  intro v? x hv h
  obtain rfl := Except.ok.inj h
  cases v? with
  | none => exact Value.inert_undefined
  | some v => exact hv v rfl

/-- What is read of an argument that must not be left out. -/
theorem required_gives {read : Value → Result α} {P : α → Prop}
    (hread : ∀ {v x}, v.Inert strict → read v = .ok x → P x) :
    (required read).Gives strict P := by
  intro v? x hv h
  cases v? with
  | none => simp [required, fail] at h
  | some v => exact hread (hv v rfl) h

/-- The text of a value without markup. -/
theorem text_gives : text.Gives strict fun s => strict = true → Text.Inert s.toList := by
  refine required_gives fun hv h => ?_
  rintro rfl
  obtain rfl := Except.ok.inj h
  exact hv.display

/-- The items of a sequence. -/
theorem items_gives : items.Gives strict fun items => ∀ v ∈ items, v.Inert strict := by
  refine required_gives fun hv h => ?_
  split at h
  · exact Except.ok.inj h ▸ Value.inert_seq.mp hv
  · simp [← Except.ok.inj h]
  · simp [← Except.ok.inj h]
  · simp [wrong, fail] at h

/-- An argument that is read and nothing is asked of. -/
theorem gives_anything {a : Arg α} : a.Gives strict fun _ => True := fun _ _ _ _ => trivial

/-- An argument that may be left out. -/
theorem optional_gives {a : Arg α} {P : α → Prop} (ha : a.Gives strict P) :
    (optional a).Gives strict fun x? => ∀ x ∈ x?, P x := by
  intro v? x? hv h
  cases v? with
  | none =>
    obtain rfl := Except.ok.inj h
    simp
  | some v =>
    simp only [optional] at h
    split at h
    · obtain rfl := Except.ok.inj h
      simp
    · obtain ⟨x, hread, rfl⟩ := Result.map_eq_ok.mp h
      intro y hy
      obtain rfl := Option.some.inj hy
      exact ha _ _ hv hread

end Arg

namespace Filter

/-- The filter makes no markup where there was none. -/
def Keeps (strict : Bool) (f : Filter) : Prop :=
  ∀ ⦃place : FilterPlace⦄ ⦃v : Value⦄ ⦃args : List Value⦄ ⦃w : Value⦄, v.Inert strict →
    (∀ a ∈ args, a.Inert strict) → f place v args = .ok w → w.Inert strict

section

variable {α β γ : Type} {strict : Bool} {a : Arg α} {b : Arg β} {c : Arg γ} {P : α → Prop}
  {Q : β → Prop} {R : γ → Prop}

/-- A filter without arguments. -/
theorem keeps_of0 {f : FilterPlace → α → Result Value} (ha : a.Gives strict P)
    (hf : ∀ {place x w}, P x → f place x = .ok w → w.Inert strict) : (of0 a f).Keeps strict := by
  intro place v args w hv hargs h
  obtain ⟨x, hx, h⟩ := Result.bind_eq_ok.mp h
  obtain ⟨_, _, h⟩ := Result.bind_eq_ok.mp h
  exact hf (ha _ _ (by simpa using hv) hx) h

/-- A filter with one argument. -/
theorem keeps_of1 {f : FilterPlace → α → β → Result Value} (ha : a.Gives strict P)
    (hb : b.Gives strict Q)
    (hf : ∀ {place x y w}, P x → Q y → f place x y = .ok w → w.Inert strict) :
    (of1 a b f).Keeps strict := by
  intro place v args w hv hargs h
  obtain ⟨x, hx, h⟩ := Result.bind_eq_ok.mp h
  obtain ⟨_, _, h⟩ := Result.bind_eq_ok.mp h
  obtain ⟨y, hy, h⟩ := Result.bind_eq_ok.mp h
  exact hf (ha _ _ (by simpa using hv) hx)
    (hb _ _ (fun u hu => hargs u (List.mem_of_getElem? hu)) hy) h

/-- A filter with two arguments. -/
theorem keeps_of2 {f : FilterPlace → α → β → γ → Result Value} (ha : a.Gives strict P)
    (hb : b.Gives strict Q) (hc : c.Gives strict R)
    (hf : ∀ {place x y z w}, P x → Q y → R z → f place x y z = .ok w → w.Inert strict) :
    (of2 a b c f).Keeps strict := by
  intro place v args w hv hargs h
  obtain ⟨x, hx, h⟩ := Result.bind_eq_ok.mp h
  obtain ⟨_, _, h⟩ := Result.bind_eq_ok.mp h
  obtain ⟨y, hy, h⟩ := Result.bind_eq_ok.mp h
  obtain ⟨z, hz, h⟩ := Result.bind_eq_ok.mp h
  exact hf (ha _ _ (by simpa using hv) hx)
    (hb _ _ (fun u hu => hargs u (List.mem_of_getElem? hu)) hy)
    (hc _ _ (fun u hu => hargs u (List.mem_of_getElem? hu)) hz) h

end

variable {strict : Bool}

/-- A function on text that makes no markup. In terms that are not strict its result may be
anything, since it is not safe. -/
theorem keeps_onText {f : List Char → List Char}
    (hf : strict = true → ∀ {cs}, Text.Inert cs → Text.Inert (f cs)) :
    (onText f).Keeps strict := by
  refine keeps_of0 Arg.text_gives fun hs h => ?_
  obtain rfl := Except.ok.inj h
  refine Value.inert_ofString.mpr fun hstrict => ?_
  rw [String.toList_ofList]
  exact hf hstrict (hs hstrict)

theorem keeps_default : default_.Keeps strict := by
  have hother : (Arg.optional Arg.any).Gives strict _ := Arg.optional_gives Arg.any_gives
  refine keeps_of1 Arg.any_gives hother fun {_ v other? _} hv hother h => ?_
  obtain rfl := Except.ok.inj h
  split
  · exact hv
  · cases other? with
    | none => simp
    | some other => exact hother other rfl

theorem keeps_escape : escape.Keeps strict := by
  refine keeps_of1 Arg.any_gives (Arg.optional_gives Arg.gives_anything)
    fun {_ v mode? _} hv _ h => ?_
  have hmarkup : (Value.ofSafeString (Text.escapeString v.display)).Inert strict :=
    Value.inert_text.mpr fun _ => Text.inert_escapeString _
  split at h
  · exact Except.ok.inj h ▸ hv
  · split at h
    · exact Except.ok.inj h ▸ hmarkup
    · split_ifs at h
      · exact Except.ok.inj h ▸ hmarkup
      · obtain rfl := Except.ok.inj h
        refine Value.inert_text.mpr fun _ => ?_
        rw [String.toList_ofList]
        exact Text.inert_escapeScript
      · simp [fail] at h

/-- Exempting text from escaping is right where there is no markup in it. -/
theorem keeps_safe : safe.Keeps true := by
  refine keeps_of0 Arg.any_gives fun hv h => ?_
  obtain rfl := Except.ok.inj h
  split
  · exact hv
  · exact Value.inert_text.mpr fun _ => hv.display

theorem keeps_replace : replace.Keeps strict := by
  refine keeps_of2 Arg.text_gives Arg.text_gives Arg.text_gives fun hs _ hnew h => ?_
  obtain rfl := Except.ok.inj h
  refine Value.inert_ofString.mpr fun hstrict => ?_
  rw [String.toList_ofList]
  exact (hs hstrict).replace (hnew hstrict)

/-- Texts without markup are joined without markup. -/
theorem inert_intercalate {separator : String} {strings : List String}
    (hseparator : Text.Inert separator.toList) (h : ∀ s ∈ strings, Text.Inert s.toList) :
    Text.Inert (separator.intercalate strings).toList := by
  induction strings with
  | nil => simp
  | cons s rest ih =>
    obtain ⟨hs, hrest⟩ := List.forall_mem_cons.mp h
    cases rest with
    | nil => simpa using hs
    | cons t rest =>
      simp only [String.intercalate_cons_cons, String.toList_append, Text.inert_append]
      exact ⟨⟨hs, hseparator⟩, ih hrest⟩

/-- The texts of values without markup are joined without markup. -/
theorem inert_joinTexts {separator : String} {items : List Value}
    (hseparator : Text.Inert separator.toList) (h : ∀ v ∈ items, v.Inert true) :
    Text.Inert (joinTexts separator items).toList := by
  refine inert_intercalate hseparator fun s hs => ?_
  obtain ⟨v, hv, rfl⟩ := List.mem_map.mp hs
  exact (h v hv).display

theorem keeps_join : join.Keeps strict := by
  refine keeps_of1 Arg.any_gives (Arg.optional_gives Arg.text_gives)
    fun {_ v separator? _} hv hseparator h => ?_
  have hsep (hstrict : strict = true) : Text.Inert (separator?.getD "").toList := by
    cases separator? with
    | none => simp
    | some separator => exact hseparator separator rfl hstrict
  split at h <;> obtain rfl := Except.ok.inj h <;> refine Value.inert_ofString.mpr fun hstrict => ?_
  · subst hstrict
    exact inert_joinTexts (hsep rfl) (Value.inert_seq.mp hv)
  · subst hstrict
    refine inert_joinTexts (hsep rfl) fun w hw => ?_
    obtain ⟨e, he, rfl⟩ := List.mem_map.mp hw
    exact (Value.inert_map.mp hv e he).2
  · subst hstrict
    exact hv.display

/-- A character of a text, if there is one. -/
theorem inert_charValue {s : String} {safe : Bool} {c? : Option Char}
    (h : (Value.text s safe).Inert strict) (hc : ∀ c ∈ c?, c ∈ s.toList) :
    (charValue c?).Inert strict := by
  cases c? with
  | none => exact Value.inert_undefined
  | some c =>
    refine Value.inert_text.mpr fun hstrict => ?_
    rw [Bool.or_false] at hstrict
    have hs := Value.inert_text.mp h (by rw [hstrict, Bool.true_or])
    simpa using hs.ne (hc c rfl)

theorem keeps_first : first.Keeps strict := by
  refine keeps_of0 Arg.any_gives fun hv h => ?_
  split at h <;> obtain rfl := Except.ok.inj h
  · exact Value.inert_getD (Value.inert_seq.mp hv) fun v hv => List.mem_of_mem_head? hv
  · exact inert_charValue hv fun c hc => List.mem_of_mem_head? hc
  · exact Value.inert_undefined

theorem keeps_last : last.Keeps strict := by
  refine keeps_of0 Arg.any_gives fun hv h => ?_
  split at h <;> obtain rfl := Except.ok.inj h
  · exact Value.inert_getD (Value.inert_seq.mp hv) fun v hv => List.mem_of_getLast? hv
  · exact inert_charValue hv fun c hc => List.mem_of_getLast? hc
  · exact Value.inert_undefined

theorem keeps_length : length.Keeps strict := by
  refine keeps_of0 Arg.any_gives fun _ h => ?_
  obtain rfl := Except.ok.inj h
  split
  · exact Value.inert_ofNat
  · exact Value.inert_lengthValue _

/-- Text with its characters in another order. -/
theorem inert_rearranged {s : String} {safe : Bool} {cs : List Char}
    (h : (Value.text s safe).Inert strict) (hsubset : cs ⊆ s.toList) :
    (Value.ofString (String.ofList cs)).Inert strict := by
  refine Value.inert_ofString.mpr fun hstrict => ?_
  rw [String.toList_ofList]
  exact (Value.inert_text.mp h (by simp [hstrict])).of_subset hsubset

theorem keeps_reverse : reverse.Keeps strict := by
  refine keeps_of0 Arg.any_gives fun hv h => ?_
  split at h <;> obtain rfl := Except.ok.inj h
  · exact Value.inert_seq.mpr fun w hw => Value.inert_seq.mp hv w (List.mem_reverse.mp hw)
  · exact inert_rearranged hv fun c hc => List.mem_reverse.mp hc
  · exact hv

/-- A sorted sequence. -/
theorem inert_sorted {items : List Value} (h : ∀ v ∈ items, v.Inert strict) (reversed : Bool) :
    let sorted := sortBy Value.totalCompare items
    (Value.seq (if reversed then sorted.reverse else sorted)).Inert strict := by
  refine Value.inert_seq.mpr fun v hv => h v ?_
  split at hv
  · exact (sortBy_perm _ items).mem_iff.mp (List.mem_reverse.mp hv)
  · exact (sortBy_perm _ items).mem_iff.mp hv

theorem keeps_sort : sort.Keeps strict := by
  refine keeps_of1 Arg.any_gives (Arg.optional_gives Arg.gives_anything) fun {_ v _ _} hv _ h => ?_
  cases v with
  | seq items =>
    obtain rfl := Except.ok.inj h
    exact inert_sorted (Value.inert_seq.mp hv) _
  | map entries =>
    obtain rfl := Except.ok.inj h
    refine inert_sorted (fun w hw => ?_) _
    obtain ⟨e, he, rfl⟩ := List.mem_map.mp hw
    exact Value.inert_ofString.mpr (Value.inert_map.mp hv e he).1
  | text s safe =>
    obtain rfl := Except.ok.inj h
    exact inert_rearranged hv (sortBy_perm _ _).subset
  | _ => exact Except.ok.inj h ▸ hv

/-- Dropping equal items adds none. -/
theorem mem_uniqueFrom {items kept : List Value} {v : Value} (h : v ∈ uniqueFrom kept items) :
    v ∈ kept ∨ v ∈ items := by
  induction items generalizing kept with
  | nil => exact .inl (List.mem_reverse.mp h)
  | cons w rest ih =>
    rw [uniqueFrom] at h
    split at h
    · exact (ih h).imp_right (List.mem_cons_of_mem _)
    · rcases ih h with hkept | hrest
      · rcases List.mem_cons.mp hkept with rfl | hkept
        · exact .inr List.mem_cons_self
        · exact .inl hkept
      · exact .inr (List.mem_cons_of_mem _ hrest)

theorem keeps_uniq : uniq.Keeps strict := by
  refine keeps_of0 Arg.items_gives fun hitems h => ?_
  obtain rfl := Except.ok.inj h
  exact Value.inert_seq.mpr fun v hv => hitems v ((mem_uniqueFrom hv).resolve_left List.not_mem_nil)

theorem keeps_json : json.Keeps strict := by
  refine keeps_of1 Arg.any_gives (Arg.optional_gives Arg.gives_anything) fun hv _ h => ?_
  split at h <;> obtain rfl := Except.ok.inj h <;> refine Value.inert_ofString.mpr fun hstrict => ?_
  · subst hstrict
    exact hv.compact
  · subst hstrict
    exact hv.indented _ 0

/-- Filters whose results are written as they are, whatever is in them. -/
def trusting : List String := ["safe", "raw"]

/-- Every built-in filter keeps harmless values harmless unless it exempts text from escaping, and
values without markup free of markup unless it decodes percent signs. -/
theorem keeps_builtin : ∀ row ∈ builtin, (row.1 ∉ trusting → row.2.Keeps false) ∧
    (row.1 ≠ "url_decode" → row.2.Keeps true) := by
  have hboth {f : Filter} {name : String} (h : ∀ strict, f.Keeps strict) :
      (name ∉ trusting → f.Keeps false) ∧ (name ≠ "url_decode" → f.Keeps true) :=
    ⟨fun _ => h false, fun _ => h true⟩
  simp only [builtin, List.forall_mem_cons]
  refine ⟨hboth fun _ => keeps_default, hboth fun _ => keeps_escape, hboth fun _ => keeps_escape,
    ⟨fun h => absurd h (by decide), fun _ => keeps_safe⟩,
    ⟨fun h => absurd h (by decide), fun _ => keeps_safe⟩,
    hboth fun _ => keeps_onText fun _ _ => Text.Inert.upper,
    hboth fun _ => keeps_onText fun _ _ => Text.Inert.lowerAfter [],
    hboth fun _ => keeps_onText fun _ _ => Text.Inert.capitalize,
    hboth fun _ => keeps_onText fun _ _ => Text.Inert.titleFrom true,
    hboth fun _ => keeps_onText fun _ _ => Text.Inert.trim,
    hboth fun _ => keeps_replace, hboth fun _ => keeps_join, hboth fun _ => keeps_first,
    hboth fun _ => keeps_last, hboth fun _ => keeps_length, hboth fun _ => keeps_reverse,
    hboth fun _ => keeps_sort, hboth fun _ => keeps_uniq,
    hboth fun _ => keeps_onText fun _ _ h => h.of_subset (Text.stripTagsFrom_subset false _),
    hboth fun _ => keeps_onText fun _ _ => Text.Inert.addSlashes,
    hboth fun _ => keeps_json,
    hboth fun _ => keeps_onText fun _ _ _ => Text.inert_percentEncode,
    ⟨fun _ => keeps_onText fun h => absurd h (by decide), fun h => absurd rfl h⟩,
    fun _ h => absurd h List.not_mem_nil⟩

/-- A filter of the initial registry is a built-in one of that name. -/
theorem mem_builtin {name : String} {f : Filter} (h : Registry.initial.filter? name = some f) :
    (name, f) ∈ builtin := by
  obtain ⟨row, hrow, rfl⟩ := Option.map_eq_some_iff.mp h
  obtain rfl : row.1 = name := by simpa using List.find?_some hrow
  exact List.mem_of_find?_eq_some hrow

end Filter

end Templating
