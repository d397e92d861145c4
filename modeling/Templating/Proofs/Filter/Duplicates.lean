import Templating.Filter.Builtin
import Templating.Proofs.Value.Equality

/-!
# Equal items

The equality of templates is an equivalence of values without floats, to which neither the order of
keys nor the marks of strings matter. So dropping an item when an equal one was kept before leaves
of each class of equal items exactly the first.
-/

namespace Templating.Filter

open Value

variable {kept items : List Value} {v : Value}

/-- What is kept are the items kept before and some of the others, in order. -/
theorem uniqueFrom_sublist : (uniqueFrom kept items).Sublist (kept.reverse ++ items) := by
  induction items generalizing kept with
  | nil => simp [uniqueFrom]
  | cons x rest ih =>
    rw [uniqueFrom]
    split
    · exact ih.trans ((List.sublist_cons_self x rest).append_left _)
    · simpa using @ih (x :: kept)

/-- An item equals one of those kept if and only if these hold one of its class. -/
theorem any_looseEq_eq {x : Value} (hv : v.isExact = true) (hx : x.isExact = true)
    (hkept : ∀ w ∈ kept, w.isExact = true) (hvx : looseEq v x = true) :
    (kept.any fun w => looseEq w x) = kept.any (looseEq v) := by
  rw [Bool.eq_iff_iff, List.any_eq_true, List.any_eq_true]
  refine exists_congr fun w => and_congr_right fun hw => ?_
  rw [looseEq_iff_canonical (hkept w hw) hx, looseEq_iff_canonical hv (hkept w hw),
    ← (looseEq_iff_canonical hv hx).mp hvx]
  exact eq_comm

/-- Of the items of a class the first one is kept, unless one was kept before. -/
theorem filter_uniqueFrom (hv : v.isExact = true) (hkept : ∀ w ∈ kept, w.isExact = true)
    (hitems : ∀ w ∈ items, w.isExact = true) :
    (uniqueFrom kept items).filter (looseEq v) = kept.reverse.filter (looseEq v) ++
      if kept.any (looseEq v) then [] else (items.filter (looseEq v)).take 1 := by
  induction items generalizing kept with
  | nil => simp [uniqueFrom]
  | cons x rest ih =>
    obtain ⟨hx, hrest⟩ := List.forall_mem_cons.mp hitems
    have hmore : ∀ w ∈ x :: kept, w.isExact = true := List.forall_mem_cons.mpr ⟨hx, hkept⟩
    rw [uniqueFrom]
    cases hvx : looseEq v x with
    | true =>
      rw [any_looseEq_eq hv hx hkept hvx]
      cases hany : kept.any (looseEq v) with
      | true => simp [ih hkept hrest, hany]
      | false => simp [ih hmore hrest, hvx]
    | false =>
      -- whether an item of another class is kept makes no difference to this one
      split
      · simp [ih hkept hrest, hvx]
      · simp [ih hmore hrest, hvx]

/-- The equality of templates is an equivalence of values without floats. Keys of maps in another
order and other marks of strings make no difference to what a value equals. Dropping equal items
leaves some of the items in their order, of each class of equal ones the first. -/
theorem looseEq_equivalence :
    (Equivalence fun a b : Exact => looseEq a.val b.val = true) ∧
      (∀ (a b : Exact) (c : Value), Rearranged a.val c →
        looseEq c b.val = looseEq a.val b.val ∧ looseEq b.val c = looseEq b.val a.val) ∧
      ∀ (place : FilterPlace) (items : List Value), (∀ v ∈ items, v.isExact = true) →
        ∃ kept : List Value, uniq place (.seq items) [] = .ok (.seq kept) ∧
          kept.Sublist items ∧
          ∀ v ∈ items, kept.filter (looseEq v) = (items.filter (looseEq v)).take 1 := by
  have heq (a b : Exact) := looseEq_iff_canonical a.isExact b.isExact
  refine ⟨⟨fun a => ?_, fun {a b} hab => ?_, fun {a b c} hab hbc => ?_⟩, fun a b c h => ?_,
    fun place items hitems => ?_⟩
  · exact (heq a a).mpr rfl
  · exact (heq b a).mpr ((heq a b).mp hab).symm
  · exact (heq a c).mpr (((heq a b).mp hab).trans ((heq b c).mp hbc))
  · obtain ⟨hc, hcanonical⟩ := h.canonical_eq a.isExact
    constructor
    · rw [Bool.eq_iff_iff, heq a b, heq ⟨c, hc⟩ b, hcanonical]
    · rw [Bool.eq_iff_iff, heq b a, heq b ⟨c, hc⟩, hcanonical]
  · refine ⟨uniqueFrom [] items, rfl, ?_, fun v hv => ?_⟩
    · simpa using @uniqueFrom_sublist [] items
    · simpa using @filter_uniqueFrom [] items v (hitems v hv) (by simp) hitems

/-- Two maps with the same keys in another order, one of them with a safe string inside, among
values that are missing. -/
theorem looseEq_equivalence_of_maps :
    let one : Value := map (Entries.ofPairs [("a", text "x" true), ("b", seq [undefined, int 1])])
    let other : Value := map [("b", seq [undefined, int 1]), ("a", text "x" false)]
    one.isExact = true ∧ Rearranged one other ∧ looseEq other one = true ∧
      ∃ kept : List Value,
        uniq ⟨"page", true⟩ (.seq [null, one, undefined, other]) [] = .ok (.seq kept) ∧
        kept.Sublist [null, one, undefined, other] ∧
        kept.filter (looseEq other) = [one] ∧ kept.filter (looseEq undefined) = [null] := by
  intro one other
  have hone : one.isExact = true := by
    simp only [one, isExact, Entries.nodup_keys_ofPairs, decide_true, Bool.true_and]
    rfl
  have hswap : Rearranged one other :=
    (Rearranged.entry "a" [] [("b", seq [undefined, int 1])] (.mark "x" true false)).trans
      (.keys (List.Perm.swap _ _ _))
  obtain ⟨hequivalence, hrearranged, huniq⟩ := looseEq_equivalence
  have hself : looseEq one one = true := hequivalence.refl ⟨one, hone⟩
  have hequal : looseEq other one = true :=
    (hrearranged ⟨one, hone⟩ ⟨one, hone⟩ other hswap).1.trans hself
  obtain ⟨kept, hkept, hsub, hfirst⟩ :=
    huniq ⟨"page", true⟩ [null, one, undefined, other] (by decide)
  refine ⟨hone, hswap, hequal, kept, hkept, hsub, ?_, ?_⟩
  · rw [hfirst other (by simp)]
    rfl
  · rw [hfirst undefined (by simp)]
    rfl

end Templating.Filter
