import Mathlib.Data.List.Forall2
import Mathlib.Data.List.TakeWhile
import Templating.Json.Decode
import Templating.Json.Reader

/-!
# The width of documents

Whatever is read from a text takes characters of the text: a string at least those of its own and
its quotes, an item the comma or the bracket behind it, a member its colon as well. `width` counts
them, so no document is wider than the text that it is read from, however the text is laid out.
-/

namespace Templating.Json

mutual

/-- How many characters any text of the document has at least. -/
def width : Json → Nat
  | text s => s.length + 2
  | array items => itemsWidth items + 1
  | object members => membersWidth members + 1
  | null => 1
  | bool _ => 1
  | int _ => 1
  | float _ => 1

/-- How many characters the items take, each with what stands behind it. -/
def itemsWidth : List Json → Nat
  | [] => 0
  | j :: rest => width j + 1 + itemsWidth rest

/-- How many characters the members take, each with its colon and what stands behind it. -/
def membersWidth : List (String × Json) → Nat
  | [] => 0
  | (name, j) :: rest => name.length + 3 + width j + 1 + membersWidth rest

end

/-! ## Reading -/

section

variable {cs rest s : List Char} {j : Json}

/-- White space only takes characters away. -/
theorem length_skipSpace_le (cs : List Char) : (skipSpace cs).length ≤ cs.length :=
  List.length_dropWhile_le _ _

/-- A string takes its characters and a quote behind them. -/
theorem length_stringRest? (h : stringRest? cs = some (s, rest)) :
    s.length + rest.length + 1 ≤ cs.length := by
  fun_induction stringRest? cs generalizing s rest <;>
    simp only [Option.map_eq_some_iff, Prod.mk.injEq, Option.some.injEq, reduceCtorEq] at h
  case case2 =>
    obtain ⟨rfl, rfl⟩ := h
    simp
  case case5 ih | case7 ih | case9 ih | case11 ih =>
    obtain ⟨⟨s, rest⟩, hrest, rfl, rfl⟩ := h
    have := ih hrest
    simp only [List.length_cons] at this ⊢
    omega

/-- Numbers are one character wide. -/
theorem width_of_number? {negative : Bool} (h : number? negative cs = some j) : j.width = 1 := by
  simp only [number?, number?.nearest?] at h
  repeat' split at h
  all_goals first
    | (simp only [Option.some.injEq, reduceCtorEq] at h; subst h; rfl)
    | (obtain ⟨d, -, rfl⟩ := Option.map_eq_some_iff.mp h; rfl)
    | contradiction

/-- A number takes some character. -/
theorem width_of_takeWhile {negative : Bool}
    (h : number? negative (cs.takeWhile isNumberChar) = some j) :
    j.width + (cs.dropWhile isNumberChar).length ≤ cs.length := by
  have hne : cs.takeWhile isNumberChar ≠ [] := by
    intro hnil
    simp [hnil, number?] at h
  have hlength : (cs.takeWhile isNumberChar).length + (cs.dropWhile isNumberChar).length =
      cs.length := by
    rw [← List.length_append, List.takeWhile_append_dropWhile]
  have := List.length_pos_of_ne_nil hne
  rw [width_of_number? h]
  omega

end

mutual

/-- A document takes as many characters as it is wide. -/
theorem width_of_value? : ∀ {bound : Nat} {cs rest : List Char} {j : Json},
    value? bound cs = some (j, rest) → j.width + rest.length ≤ cs.length
  | 0, _, _, _, h => by simp [value?] at h
  | bound + 1, cs, rest, j, h => by
    have hspace := length_skipSpace_le cs
    rw [value?] at h
    split at h
    all_goals try simp only [Option.map_eq_some_iff, Option.some.injEq, Prod.mk.injEq] at h
    · next rest' hfront =>
      obtain ⟨⟨s, tail⟩, hs, rfl, rfl⟩ := h
      have := length_stringRest? hs
      simp only [hfront, List.length_cons] at hspace
      simp only [width, String.length_ofList]
      omega
    · next rest' hfront =>
      have hinner := length_skipSpace_le rest'
      simp only [hfront, List.length_cons] at hspace
      split at h
      · next tail hend =>
        obtain ⟨rfl, rfl⟩ := by simpa only [Option.some.injEq, Prod.mk.injEq] using h
        simp only [hend, List.length_cons] at hinner
        simp only [width, itemsWidth]
        omega
      · obtain ⟨⟨items, tail⟩, hitems, rfl, rfl⟩ := by
          simpa only [Option.map_eq_some_iff, Prod.mk.injEq] using h
        have := width_of_items? hitems
        simp only [width]
        omega
    · next rest' hfront =>
      have hinner := length_skipSpace_le rest'
      simp only [hfront, List.length_cons] at hspace
      split at h
      · next tail hend =>
        obtain ⟨rfl, rfl⟩ := by simpa only [Option.some.injEq, Prod.mk.injEq] using h
        simp only [hend, List.length_cons] at hinner
        simp only [width, membersWidth]
        omega
      · obtain ⟨⟨members, tail⟩, hmembers, rfl, rfl⟩ := by
          simpa only [Option.map_eq_some_iff, Prod.mk.injEq] using h
        have := width_of_members? hmembers
        simp only [width]
        omega
    case h_4 | h_5 | h_6 =>
      obtain ⟨rfl, rfl⟩ := h
      simp only [*, List.length_cons] at hspace
      simp only [width]
      omega
    · next rest' hfront =>
      obtain ⟨j, hj, rfl, rfl⟩ := h
      have := width_of_takeWhile hj
      simp only [hfront, List.length_cons] at hspace
      omega
    · obtain ⟨j, hj, rfl, rfl⟩ := h
      exact Nat.le_trans (width_of_takeWhile hj) hspace

/-- Items take as many characters as they are wide, with the bracket behind them. -/
theorem width_of_items? : ∀ {bound : Nat} {cs rest : List Char} {items : List Json},
    items? bound cs = some (items, rest) → itemsWidth items + rest.length ≤ cs.length
  | 0, _, _, _, h => by simp [items?] at h
  | bound + 1, cs, rest, items, h => by
    rw [items?] at h
    cases hvalue : value? bound cs with
    | none => simp [hvalue] at h
    | some read =>
      obtain ⟨j, behind⟩ := read
      have hj := width_of_value? hvalue
      have hspace := length_skipSpace_le behind
      simp only [hvalue] at h
      split at h
      · next more hmore =>
        obtain ⟨⟨items, rest⟩, hitems, rfl, rfl⟩ := by
          simpa only [Option.map_eq_some_iff, Prod.mk.injEq] using h
        have hrest := width_of_items? hitems
        simp only [hmore, List.length_cons] at hspace
        simp only [itemsWidth]
        omega
      · next tail hend =>
        obtain ⟨rfl, rfl⟩ := by simpa only [Option.some.injEq, Prod.mk.injEq] using h
        simp only [hend, List.length_cons] at hspace
        simp only [itemsWidth]
        omega
      · simp at h

/-- Members take as many characters as they are wide, with the brace behind them. -/
theorem width_of_members? : ∀ {bound : Nat} {cs rest : List Char} {members : List (String × Json)},
    members? bound cs = some (members, rest) → membersWidth members + rest.length ≤ cs.length
  | 0, _, _, _, h => by simp [members?] at h
  | bound + 1, cs, rest, members, h => by
    have hspace := length_skipSpace_le cs
    rw [members?] at h
    split at h
    · next quoted hfront =>
      simp only [hfront, List.length_cons] at hspace
      cases hname : stringRest? quoted with
      | none => simp [hname] at h
      | some read =>
        obtain ⟨name, afterName⟩ := read
        have hlength := length_stringRest? hname
        have hcolon := length_skipSpace_le afterName
        simp only [hname] at h
        split at h
        · next afterColon heq =>
          simp only [heq, List.length_cons] at hcolon
          cases hvalue : value? bound afterColon with
          | none => simp [hvalue] at h
          | some read =>
            obtain ⟨j, behind⟩ := read
            have hj := width_of_value? hvalue
            have hbehind := length_skipSpace_le behind
            simp only [hvalue] at h
            split at h
            · next more hmore =>
              obtain ⟨⟨members, rest⟩, hmembers, rfl, rfl⟩ := by
                simpa only [Option.map_eq_some_iff, Prod.mk.injEq] using h
              have hrest := width_of_members? hmembers
              simp only [hmore, List.length_cons] at hbehind
              simp only [membersWidth, String.length_ofList]
              omega
            · next tail hend =>
              obtain ⟨rfl, rfl⟩ := by simpa only [Option.some.injEq, Prod.mk.injEq] using h
              simp only [hend, List.length_cons] at hbehind
              simp only [membersWidth, String.length_ofList]
              omega
            · simp at h
        · simp at h
    · simp at h

end

/-- A text that is one document is at least as long as the document is wide. -/
theorem width_of_read? {cs : List Char} {j : Json} (h : read? cs = some j) :
    j.width ≤ cs.length := by
  rw [read?] at h
  split at h
  · next j' rest hvalue =>
    have := width_of_value? hvalue
    split at h
    · obtain rfl := Option.some.inj h
      omega
    · simp at h
  · simp at h

/-! ## Decoding -/

section

variable {α : Type} {read : Json → Option α} {j d : Json}

/-- A required field is read from a document. -/
theorem exists_of_required? {field : Option Json} {x : α} (h : required? read field = some x) :
    ∃ d, field = some d ∧ read d = some x := by
  cases field with
  | none => simp [required?] at h
  | some d => exact ⟨d, rfl, h⟩

/-- An optional field is read from a document or left out. -/
theorem exists_of_optional? {field : Option Json} {default x : α}
    (h : optional? read default field = some x) :
    x = default ∨ ∃ d, field = some d ∧ read d = some x := by
  cases field with
  | none => exact .inl (Option.some.inj h).symm
  | some d => exact .inr ⟨d, rfl, h⟩

/-- What a list of readings gives is read one by one. -/
theorem forall₂_of_mapM {β : Type} {f : β → Option α} {bs : List β} {xs : List α}
    (h : bs.mapM f = some xs) : List.Forall₂ (fun b x => f b = some x) bs xs := by
  induction bs generalizing xs with
  | nil =>
    obtain rfl := Option.some.inj h
    exact .nil
  | cons b bs ih =>
    rw [List.mapM_cons] at h
    obtain ⟨x, hx, h⟩ := Option.bind_eq_some_iff.mp h
    obtain ⟨xs, hxs, h⟩ := Option.bind_eq_some_iff.mp h
    obtain rfl := Option.some.inj h
    exact .cons hx (ih hxs)

/-- Each of them is read from something. -/
theorem exists_of_mem_mapM {β : Type} {f : β → Option α} {bs : List β} {xs : List α}
    (h : bs.mapM f = some xs) {x : α} (hx : x ∈ xs) : ∃ b ∈ bs, f b = some x := by
  have hread := forall₂_of_mapM h
  clear h
  induction hread with
  | nil => simp at hx
  | @cons b y bs ys hb _ ih =>
    rcases List.mem_cons.mp hx with rfl | hx
    · exact ⟨b, List.mem_cons_self, hb⟩
    · obtain ⟨b, hmem, hb⟩ := ih hx
      exact ⟨b, List.mem_cons_of_mem _ hmem, hb⟩

/-- An item is narrower than its array. -/
theorem width_lt_of_item {items : List Json} (h : d ∈ items) : d.width < (array items).width := by
  rw [width]
  induction items with
  | nil => simp at h
  | cons i rest ih =>
    rw [itemsWidth]
    rcases List.mem_cons.mp h with rfl | h
    · omega
    · have := ih h
      omega

/-- A member is narrower than its object. -/
theorem width_lt_of_member {members : List (String × Json)} {m : String × Json}
    (h : m ∈ members) : m.2.width < (object members).width := by
  rw [width]
  induction members with
  | nil => simp at h
  | cons k rest ih =>
    rw [membersWidth]
    rcases List.mem_cons.mp h with rfl | h
    · omega
    · have := ih h
      omega

/-- So is the only member of a name. -/
theorem width_lt_of_uniqueMember? {members : List (String × Json)} {name : String}
    (h : uniqueMember? members name = some (some d)) : d.width < (object members).width := by
  rw [uniqueMember?] at h
  split at h
  · simp at h
  · next m hm =>
    obtain rfl := Option.some.inj (Option.some.inj h)
    exact width_lt_of_member (List.mem_of_mem_filter (hm ▸ List.mem_singleton_self m))
  · simp at h

/-- The document of a field is narrower than that of its record. -/
theorem width_lt_of_fields? {names : List String} {fields : List (Option Json)}
    (h : fields? names j = some fields) (hd : some d ∈ fields) : d.width < j.width := by
  cases j with
  | object members =>
    obtain ⟨name, -, hname⟩ := exists_of_mem_mapM h hd
    exact width_lt_of_uniqueMember? hname
  | array items =>
    rw [fields?] at h
    split at h
    · obtain rfl := Option.some.inj h
      refine width_lt_of_item ?_
      simpa using hd
    · simp at h
  | _ => simp [fields?] at h

/-- A list has as many characters for each item as the items have at least, and one more. -/
theorem length_asList? {least : Nat} (hleast : ∀ d x, read d = some x → least ≤ d.width)
    {xs : List α} (h : asList? read j = some xs) : xs.length * (least + 1) < j.width := by
  cases j with
  | array items =>
    rw [width]
    refine Nat.lt_succ_of_le ?_
    have hread := forall₂_of_mapM h
    clear h
    induction hread with
    | nil => simp
    | @cons d x items xs hx _ ih =>
      have := hleast d x hx
      rw [List.length_cons, itemsWidth, Nat.succ_mul]
      omega
  | _ => simp [asList?] at h

/-- An item of a list is read from a document narrower than that of the list. -/
theorem exists_of_mem_asList? {xs : List α} (h : asList? read j = some xs) {x : α} (hx : x ∈ xs) :
    ∃ d, read d = some x ∧ d.width < j.width := by
  cases j with
  | array items =>
    obtain ⟨d, hd, hx⟩ := exists_of_mem_mapM h hx
    exact ⟨d, hx, width_lt_of_item hd⟩
  | _ => simp [asList?] at h

end

end Templating.Json
