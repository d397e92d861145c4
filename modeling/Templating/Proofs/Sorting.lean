import Mathlib.Data.List.Induction
import Templating.Sorting

/-!
# Stable sorting

Sorting by a total preorder puts things in order, and things that compare as equal stay in the order
they came in. The comparison has to be a preorder of the things that are sorted only: `Preorders`
says so of all things with some property.
-/

namespace Templating

variable {α : Type} {cmp : α → α → Ordering} {P : α → Prop} {v x : α} {xs : List α}

/-- The comparison is a total preorder of the things with a property. -/
structure Preorders (cmp : α → α → Ordering) (P : α → Prop) : Prop where
  swap : ∀ a b, cmp b a = (cmp a b).swap
  trans : ∀ {a b c}, P a → P b → P c → cmp a b ≠ .gt → cmp b c ≠ .gt → cmp a c ≠ .gt

namespace Preorders

/-- What is not before a thing has that thing not behind it. -/
theorem ne_gt (h : Preorders cmp P) {a b : α} (hab : cmp a b ≠ .lt) : cmp b a ≠ .gt := by
  rw [h.swap a b]
  revert hab
  cases cmp a b <;> simp

/-- Two things of which neither is behind the other compare as equal. -/
theorem eq_of_ne_gt (h : Preorders cmp P) {a b : α} (hab : cmp a b ≠ .gt) (hba : cmp b a ≠ .gt) :
    cmp a b = .eq := by
  rw [h.swap a b] at hba
  revert hab hba
  cases cmp a b <;> simp

/-- A transitive comparison is a preorder of all things. -/
theorem of_transCmp (cmp : α → α → Ordering) [Std.TransCmp cmp] :
    Preorders cmp fun _ => True where
  swap _ _ := Std.OrientedCmp.eq_swap
  trans _ _ _ hab hbc := by
    have hle := Std.TransCmp.isLE_trans (Ordering.isLE_iff_ne_gt.mpr hab)
      (Ordering.isLE_iff_ne_gt.mpr hbc)
    exact Ordering.isLE_iff_ne_gt.mp hle

/-- Two things that compare as equal to a third one compare as equal. -/
theorem eq_of_eq (h : Preorders cmp P) {a b : α} (hv : P v) (ha : P a) (hb : P b)
    (hva : cmp v a = .eq) (hvb : cmp v b = .eq) : cmp a b = .eq := by
  have hav : cmp a v = .eq := by rw [h.swap v a, hva]; rfl
  have hbv : cmp b v = .eq := by rw [h.swap v b, hvb]; rfl
  exact h.eq_of_ne_gt (h.trans ha hv hb (by simp [hav]) (by simp [hvb]))
    (h.trans hb hv ha (by simp [hbv]) (by simp [hva]))

end Preorders

/-- Inserting a thing keeps a list descending. -/
theorem insertDescending_pairwise (h : Preorders cmp P) (hx : P x) (hxs : ∀ y ∈ xs, P y)
    (hsorted : xs.Pairwise fun a b => cmp b a ≠ .gt) :
    (insertDescending cmp x xs).Pairwise fun a b => cmp b a ≠ .gt := by
  induction xs with
  | nil => exact List.pairwise_singleton _ _
  | cons y rest ih =>
    obtain ⟨hy, hrest⟩ := List.pairwise_cons.mp hsorted
    rw [insertDescending]
    split
    · next hlt =>
      refine List.pairwise_cons.mpr ⟨fun z hz => ?_, ih (fun z hz => hxs z (.tail _ hz)) hrest⟩
      obtain rfl | hz := List.mem_cons.mp ((insertDescending_perm cmp x rest).mem_iff.mp hz)
      · simp [beq_iff_eq.mp hlt]
      · exact hy z hz
    · next hge =>
      have hyx : cmp y x ≠ .gt := h.ne_gt fun hlt => hge (beq_iff_eq.mpr hlt)
      refine List.pairwise_cons.mpr ⟨fun z hz => ?_, hsorted⟩
      obtain rfl | hz := List.mem_cons.mp hz
      · exact hyx
      · exact h.trans (hxs z (.tail _ hz)) (hxs y (.head _)) hx (hy z hz) hyx

/-- A thing is inserted in front of those that compare as equal to it. -/
theorem filter_insertDescending (h : Preorders cmp P) (hv : P v) (hx : P x) (hxs : ∀ y ∈ xs, P y) :
    (insertDescending cmp x xs).filter (fun y => cmp v y == .eq) =
      (x :: xs).filter fun y => cmp v y == .eq := by
  induction xs with
  | nil => rfl
  | cons y rest ih =>
    rw [insertDescending]
    split
    · next hlt =>
      have hrest := ih fun z hz => hxs z (.tail _ hz)
      by_cases hvx : cmp v x = .eq
      · -- what goes behind is not equal to what is inserted
        have hvy : cmp v y ≠ .eq := fun hvy => by
          rw [h.eq_of_eq hv hx (hxs y (.head _)) hvx hvy] at hlt
          exact absurd hlt (by decide)
        simp only [List.filter_cons, beq_iff_eq, if_neg hvy] at hrest ⊢
        exact hrest
      · simp only [List.filter_cons, beq_iff_eq, if_neg hvx] at hrest ⊢
        rw [hrest]
    · rfl

/-- Sorting one thing more inserts it. -/
theorem reverse_sortBy_concat (cmp : α → α → Ordering) (xs : List α) (x : α) :
    (sortBy cmp (xs ++ [x])).reverse = insertDescending cmp x (sortBy cmp xs).reverse := by
  simp only [sortBy, List.foldl_append, List.foldl_cons, List.foldl_nil, List.reverse_reverse]

/-- Sorting puts things in order. -/
theorem sortBy_pairwise (h : Preorders cmp P) (hxs : ∀ x ∈ xs, P x) :
    (sortBy cmp xs).Pairwise fun a b => cmp a b ≠ .gt := by
  rw [← List.pairwise_reverse]
  induction xs using List.reverseRecOn with
  | nil => exact List.Pairwise.nil
  | append_singleton xs x ih =>
    rw [reverse_sortBy_concat]
    have hmem : ∀ y ∈ (sortBy cmp xs).reverse, P y := fun y hy =>
      hxs y (List.mem_append_left _ ((sortBy_perm cmp xs).mem_iff.mp (List.mem_reverse.mp hy)))
    exact insertDescending_pairwise h (hxs x (by simp)) hmem
      (ih fun y hy => hxs y (List.mem_append_left _ hy))

/-- Sorting leaves things that compare as equal in their order. -/
theorem filter_sortBy (h : Preorders cmp P) (hv : P v) (hxs : ∀ x ∈ xs, P x) :
    (sortBy cmp xs).filter (fun x => cmp v x == .eq) = xs.filter fun x => cmp v x == .eq := by
  apply List.reverse_inj.mp
  rw [← List.filter_reverse]
  induction xs using List.reverseRecOn with
  | nil => rfl
  | append_singleton xs x ih =>
    have hmem : ∀ y ∈ (sortBy cmp xs).reverse, P y := fun y hy =>
      hxs y (List.mem_append_left _ ((sortBy_perm cmp xs).mem_iff.mp (List.mem_reverse.mp hy)))
    rw [reverse_sortBy_concat, filter_insertDescending h hv (hxs x (by simp)) hmem,
      List.filter_cons, ih fun y hy => hxs y (List.mem_append_left _ hy), List.filter_append,
      List.reverse_append, List.filter_cons]
    split <;> rfl

end Templating
