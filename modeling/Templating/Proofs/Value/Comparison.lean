import Templating.Proofs.Sorting
import Templating.Proofs.Value.Order
import Templating.Value.Arithmetic

/-!
# Comparison in templates and in sorting

Templates compare only some values with each other; sorting has to order any two. Where templates
compare two values they are sorted in that order. Among values without floats the order of sorting
is a preorder, since only floats can equal different integers.
-/

namespace Templating.Value

/-- Numbers and texts are sorted as templates compare them. -/
theorem totalCompare_of_commonCompare? {a b : Value} {o : Ordering}
    (h : commonCompare? a b = some o) : totalCompare a b = o := by
  cases a with
  | int x => cases b with
    | int y => exact Option.some.inj h
    | float y => exact compareFloatTotal_of_compareFloat? h
    | _ => simp [commonCompare?, common?] at h
  | float x => cases b with
    | int y => exact compareFloatTotal_of_compareFloat? h
    | float y => exact compareFloatTotal_of_compareFloat? h
    | _ => simp [commonCompare?, common?, asFloat?] at h
  | text s _ => cases b with
    | text t _ => exact Option.some.inj h
    | _ => simp [commonCompare?, common?, asFloat?] at h
  | _ => cases b <;> simp [commonCompare?, common?, asFloat?] at h

mutual

/-- Where templates can compare two values, these are sorted in that order. -/
theorem totalCompare_of_compare? : ∀ {a b : Value} {o : Ordering},
    compare? a b = some o → totalCompare a b = o
  | bool _, bool _, _, h => Option.some.inj h
  | seq _, seq _, _, h => totalCompareItems_of_compareItems? h
  | int _, _, _, h | float _, _, _, h | text .., _, _, h => totalCompare_of_commonCompare? h

/-- Where templates can compare two sequences, these are sorted in that order. -/
theorem totalCompareItems_of_compareItems? : ∀ {xs ys : List Value} {o : Ordering},
    compareItems? xs ys = some o → totalCompareItems xs ys = o
  | [], [], _, h | [], _ :: _, _, h | _ :: _, [], _, h => Option.some.inj h
  | x :: xs, y :: ys, o, h => by
    rw [compareItems?] at h
    cases hfirst : compare? x y with
    | none => simp [hfirst] at h
    | some first =>
      rw [totalCompareItems, totalCompare_of_compare? hfirst]
      cases first with
      | eq => exact totalCompareItems_of_compareItems? (by simpa [hfirst] using h)
      | lt | gt =>
        obtain rfl : _ = o := by simpa [hfirst] using h
        rfl

end

/-- Values that are not sorted the other way around do not compare so in templates either. -/
theorem not_ordered_gt {a b : Value} (h : totalCompare a b ≠ .gt) :
    ordered (· == .gt) a b = false := by
  rw [ordered]
  cases hcompare : compare? a b with
  | none => rfl
  | some o => exact beq_eq_false_iff_ne.mpr (totalCompare_of_compare? hcompare ▸ h)

/-- There is no float in the value, at whatever depth. -/
def FloatFree (v : Value) : Prop := ∀ x, float x ∉ numbers v

/-- The order of sorting is a preorder of the values without floats. -/
theorem preorders_totalCompare : Preorders totalCompare FloatFree where
  swap := totalCompare_swap
  trans := by
    intro a b c ha hb hc
    have hapart : TellsApart (numbers a ++ (numbers b ++ numbers c)) := by
      intro x y z _ _ hz
      simp only [List.mem_append] at hz
      exact absurd hz (by simp [ha z, hb z, hc z])
    have hsub := List.append_subset.mp (List.Subset.refl (numbers a ++ (numbers b ++ numbers c)))
    obtain ⟨hb', hc'⟩ := List.append_subset.mp hsub.2
    exact (composes_totalCompare hapart a b c hsub.1 hb' hc').ne_gt

end Templating.Value
