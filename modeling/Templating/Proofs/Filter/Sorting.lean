import Templating.Filter.Builtin
import Templating.Proofs.Value.Comparison

/-!
# The sorting filter

A sequence is sorted by the order in which templates compare values, wherever they can compare them.
If its items hold no floats that order is a preorder, so sorting gives the items in order, and those
that compare as equal as they came. Sorting backwards reverses all of it.
-/

namespace Templating.Filter

open Value

/-- Where templates compare two values they are sorted so. Items without floats are sorted: none is
greater in template comparison than a later one, and equal ones keep their order. With a true
argument the same items come the other way around. -/
theorem sort_seq_sorted (place : FilterPlace) (items : List Value) (a b : Value) :
    (∀ o, compare? a b = some o → totalCompare a b = o) ∧
      ((∀ v ∈ items, v.FloatFree) →
        ∃ sorted : List Value,
          sort place (.seq items) [] = .ok (.seq sorted) ∧
          (∀ flag, sort place (.seq items) [flag] =
            .ok (.seq (if flag.isTrue then sorted.reverse else sorted))) ∧
          sorted.Perm items ∧
          sorted.Pairwise (fun v w => totalCompare v w ≠ .gt ∧ ordered (· == .gt) v w = false) ∧
          ∀ v ∈ items, sorted.filter (fun w => totalCompare v w == .eq) =
            items.filter fun w => totalCompare v w == .eq) := by
  refine ⟨fun o => totalCompare_of_compare?, fun hfree => ?_⟩
  refine ⟨sortBy totalCompare items, rfl, fun flag => ?_, sortBy_perm _ _, ?_, fun v hv => ?_⟩
  · cases flag <;> rfl
  · have hsorted := sortBy_pairwise preorders_totalCompare hfree
    exact hsorted.imp fun h => ⟨h, not_ordered_gt h⟩
  · exact filter_sortBy preorders_totalCompare (hfree v hv) hfree

/-- Items of different kinds: maps that differ below a common key, a safe string and an ordinary one
with the same text, and sequences of which one continues the other. -/
theorem sort_seq_sorted_mixed :
    let items : List Value := [map [("k", seq [int 2])], text "b" true, seq [int 1, null],
      text "b" false, map [("k", seq [int 1, undefined])], seq [int 1], text "a" false]
    compare? (seq [int 1, float 2.0]) (seq [float 1.0, int 3]) = some .lt ∧
      totalCompare (seq [int 1, float 2.0]) (seq [float 1.0, int 3]) = .lt ∧
      (∀ v ∈ items, v.FloatFree) ∧
      ∃ sorted : List Value,
        sort ⟨"page", true⟩ (.seq items) [] = .ok (.seq sorted) ∧
        sort ⟨"page", true⟩ (.seq items) [bool true] = .ok (.seq sorted.reverse) ∧
        sorted.Perm items ∧
        sorted.filter (fun w => totalCompare (text "b" false) w == .eq) =
          [text "b" true, text "b" false] := by
  intro items
  have hcompare : compare? (seq [int 1, float 2.0]) (seq [float 1.0, int 3]) = some .lt := by
    decide +kernel
  have hfree : ∀ v ∈ items, v.FloatFree := by
    intro v hv x
    simp only [items, List.mem_cons, List.not_mem_nil, or_false] at hv
    rcases hv with rfl | rfl | rfl | rfl | rfl | rfl | rfl <;>
      simp [numbers, numbersOfItems, numbersOfEntries]
  obtain ⟨hagree, hsort⟩ := sort_seq_sorted ⟨"page", true⟩ items (seq [int 1, float 2.0])
    (seq [float 1.0, int 3])
  obtain ⟨sorted, hplain, hflag, hperm, -, hstable⟩ := hsort hfree
  refine ⟨hcompare, hagree _ hcompare, hfree, sorted, hplain, hflag (bool true), hperm, ?_⟩
  rw [hstable (text "b" false) (by simp [items])]
  rfl

end Templating.Filter
