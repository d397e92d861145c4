/-!
# Sorting

Stable sorting of a list by a comparison. Items are taken in order and inserted behind everything
they do not precede, so items that compare equal keep their order.
-/

namespace Templating

variable {α : Type}

/-- Insert an item into a list that descends: it goes behind everything it precedes. -/
def insertDescending (cmp : α → α → Ordering) (x : α) : List α → List α
  | [] => [x]
  | y :: rest => if cmp x y == .lt then y :: insertDescending cmp x rest else x :: y :: rest

/-- Sort a list. -/
def sortBy (cmp : α → α → Ordering) (xs : List α) : List α :=
  (xs.foldl (fun sorted x => insertDescending cmp x sorted) []).reverse

/-- Inserting an item adds that item and changes no other. -/
theorem insertDescending_perm (cmp : α → α → Ordering) (x : α) (xs : List α) :
    (insertDescending cmp x xs).Perm (x :: xs) := by
  induction xs with
  | nil => exact List.Perm.refl _
  | cons y rest ih =>
    rw [insertDescending]
    split
    · exact (ih.cons y).trans (List.Perm.swap x y rest)
    · exact List.Perm.refl _

/-- Sorting only reorders. -/
theorem sortBy_perm (cmp : α → α → Ordering) (xs : List α) : (sortBy cmp xs).Perm xs := by
  have key : ∀ sorted : List α,
      (xs.foldl (fun sorted x => insertDescending cmp x sorted) sorted).Perm (xs ++ sorted) := by
    induction xs with
    | nil => exact fun sorted => List.Perm.refl _
    | cons x rest ih =>
      intro sorted
      refine (ih _).trans (((insertDescending_perm cmp x sorted).append_left rest).trans ?_)
      exact List.perm_middle
  have := key []
  rw [List.append_nil] at this
  exact (List.reverse_perm _).trans this

end Templating
