import Mathlib.Data.List.Forall2
import Templating.Proofs.Template.Acceptance
import Templating.Proofs.Template.Printing

/-!
# Items between commas

Arguments, lists and maps hold items with commas in between, up to a closing token. From rows of
tokens of which each is one item, such a list is read item by item.
-/

namespace Templating

namespace Parser

variable {α β : Type} {closes : Token → Bool} {close : Token} {item : Parser α}

/-- Tokens of one item of a list: they do not begin with what closes the list, and the item is read
from them before a comma and before the end of the list. -/
structure ReadsItem (closes : Token → Bool) (close : Token) (item : Parser α) (Q : α → Prop)
    (ts : List Token) : Prop where
  opens : ∃ t rest, ts = t :: rest ∧ closes t = false
  takes : ∀ t rest, t = .comma ∨ t = close → item.Takes (ts ++ t :: rest) (t :: rest) Q

/-- Rows of tokens from which a reader of items reads one for each of the given things. -/
abbrev ReadsItems (closes : Token → Bool) (close : Token) (item : Parser α) (R : β → α → Prop) :
    List (List Token) → List β → Prop :=
  List.Forall₂ fun ts b => ReadsItem closes close item (R b) ts

variable {R : β → α → Prop} {tss : List (List Token)} {bs : List β} {ts : List Token} {b : β}
  {after : List Token} {Q : List α ⊕ List α → Prop}

/-- Rows of further items and the end of the list go on with a comma or end the list. -/
theorem separated_next (tss : List (List Token)) (close : Token) (after : List Token) :
    ∃ t rest, tss.flatMap (.comma :: ·) ++ close :: after = t :: rest ∧
      (t = .comma ∨ t = close) := by
  cases tss with
  | nil => exact ⟨close, after, rfl, .inr rfl⟩
  | cons ts tss => exact ⟨.comma, _, rfl, .inl rfl⟩

/-- At the end of a list no more items are read. -/
theorem closed_takes (hclose : closes close = true) {items : List α}
    {more : Parser (List α ⊕ List α)} (hQ : Q (.inr items)) :
    (do if ← skipIf closes then return .inr items else more : Parser (List α ⊕ List α)).Takes
      (close :: after) after Q := by
  refine (Takes.skipIf hclose).bind fun passed hpassed => ?_
  rw [if_pos hpassed]
  exact .pure hQ

/-- Where nothing closes the list, reading goes on. -/
theorem open_takes {items : List α} {xs ys : List Token} (hopen : ∀ t ∈ xs.head?, closes t = false)
    {more : Parser (List α ⊕ List α)} (hmore : more.Takes xs ys Q) :
    (do if ← skipIf closes then return .inr items else more : Parser (List α ⊕ List α)).Takes
      xs ys Q := by
  refine (Takes.skipIf_other hopen).bind fun passed hpassed => ?_
  rw [hpassed, if_neg Bool.false_ne_true]
  exact hmore

/-- Where an item begins nothing closes the list. -/
theorem ReadsItem.head (h : ReadsItem closes close item (R b) ts) (us : List Token) :
    ∀ t ∈ (ts ++ us).head?, closes t = false := by
  obtain ⟨t, rest, rfl, ht⟩ := h.opens
  intro t' ht'
  rwa [← Option.some.inj ht']

/-- There is an item. -/
theorem ReadsItem.length_pos (h : ReadsItem closes close item (R b) ts) : 0 < ts.length := by
  obtain ⟨t, rest, rfl, -⟩ := h.opens
  exact Nat.succ_pos _

/-- An item that is read comes in front of those before it. -/
theorem ReadsItem.more (h : ReadsItem closes close item (R b) ts) {items : List α} {t : Token}
    {rest : List Token} (ht : t = .comma ∨ t = close) :
    (do return .inl ((← item) :: items) : Parser (List α ⊕ List α)).Takes
      (ts ++ t :: rest) (t :: rest) fun r => ∃ y, r = .inl y ∧ ∃ a, y = a :: items ∧ R b a :=
  (h.takes t rest ht).bind fun a ha => .pure ⟨a :: items, rfl, a, rfl, ha⟩

/-- One round of reading items: the end of the list, or another item, behind a comma unless it is
the first one. -/
def commaStep (closes : Token → Bool) (item : Parser α) (items : List α) :
    Parser (List α ⊕ List α) := do
  if ← skipIf closes then return .inr items
  else if items.isEmpty then return .inl [← item]
  else
    expect isComma
    if ← skipIf closes then return .inr items
    else return .inl ((← item) :: items)

/-- The items of a list are read round by round. -/
theorem commaList_eq (closes : Token → Bool) (item : Parser α) :
    commaList closes item = do return (← iterate (commaStep closes item) []).reverse := rfl

/-- Behind the first item, the others are read each behind a comma. -/
theorem commaStep_loops (hclose : closes close = true) (hcomma : closes .comma = false)
    (h : ReadsItems closes close item R tss bs) (after : List Token) (a : α) (items : List α) :
    Loops (commaStep closes item) (a :: items) (tss.flatMap (.comma :: ·) ++ close :: after) after
      fun all => ∃ more, all = more.reverse ++ a :: items ∧ List.Forall₂ R bs more := by
  induction h generalizing a items with
  | nil => exact .done (closed_takes hclose ⟨_, rfl, [], rfl, .nil⟩)
  | @cons ts b tss bs hfirst hrest ih =>
    obtain ⟨t, rest, hnext, ht⟩ := separated_next tss close after
    rw [List.flatMap_cons, List.append_assoc, hnext]
    refine .more (t :: rest) (I := fun y => ∃ c, y = c :: a :: items ∧ R b c) ?_ ?_ ?_
    · exact open_takes (by simpa using hcomma) ((Takes.expect rfl).bind fun _ _ =>
        open_takes (hfirst.head _) (hfirst.more ht))
    · simp only [List.cons_append, List.length_cons, List.length_append]
      omega
    · rintro _ ⟨c, rfl, hc⟩
      rw [← hnext]
      refine (ih c (a :: items)).imp fun all hall => ?_
      obtain ⟨more, rfl, hmore⟩ := hall
      exact ⟨c :: more, by simp, .cons hc hmore⟩

/-- Items separated by commas are read from rows of tokens with commas in between. -/
theorem commaList_takes (hclose : closes close = true) (hcomma : closes .comma = false)
    (h : ReadsItems closes close item R tss bs) (after : List Token) :
    (commaList closes item).Takes (Token.separated tss ++ close :: after) after
      (List.Forall₂ R bs) := by
  rw [commaList_eq]
  refine Takes.bind (R := fun items => List.Forall₂ R bs items.reverse) (Loops.iterate ?_)
    fun items hitems => .pure hitems
  cases h with
  | nil => exact .done (closed_takes hclose ⟨[], rfl, .nil⟩)
  | @cons ts b tss bs hfirst hrest =>
    obtain ⟨t, rest, hnext, ht⟩ := separated_next tss close after
    rw [Token.separated, List.append_assoc, hnext]
    refine .more (t :: rest) (I := fun y => ∃ a, y = [a] ∧ R b a) ?_ ?_ ?_
    · exact open_takes (hfirst.head _) (hfirst.more ht)
    · rw [List.length_append]
      exact Nat.lt_add_of_pos_left hfirst.length_pos
    · rintro _ ⟨a, rfl, ha⟩
      rw [← hnext]
      refine (commaStep_loops hclose hcomma hrest after a []).imp fun all hall => ?_
      obtain ⟨more, rfl, hmore⟩ := hall
      rw [List.reverse_append, List.reverse_reverse]
      exact .cons ha hmore

end Parser

end Templating
