import Mathlib.Data.List.Basic
import Templating.Json.Decode

/-!
# Reading back typed data

What is read from the document of a list or a record is what was written, if this holds of the
items or the fields.
-/

namespace Templating.Json

/-- A list whose items are read back is read back. -/
theorem asList?_map {α : Type} {read : Json → Option α} {write : α → Json} {xs : List α}
    (h : ∀ x ∈ xs, read (write x) = some x) : asList? read (array (xs.map write)) = some xs := by
  rw [asList?]
  induction xs with
  | nil => rfl
  | cons x xs ih =>
    rw [List.map_cons, List.mapM_cons, h x List.mem_cons_self,
      ih fun y hy => h y (List.mem_cons_of_mem x hy)]
    rfl

/-- A pair whose parts are read back is read back. -/
theorem asPair?_array {α β : Type} {first : Json → Option α} {second : Json → Option β} {a b : Json}
    {x : α} {y : β} (ha : first a = some x) (hb : second b = some y) :
    asPair? first second (array [a, b]) = some (x, y) := by
  rw [asPair?, ha, hb]

/-- A number below the bound is read back. -/
theorem asNat?_int {bound n : Nat} (h : n < bound) : asNat? bound (int n) = some n := by
  rw [asNat?, if_pos ⟨Int.natCast_nonneg n, h⟩]
  rfl

/-- With unique names, the member of a name is the one that was written. -/
theorem uniqueMember?_of_mem {members : List (String × Json)} {m : String × Json}
    (hnodup : (members.map Prod.fst).Nodup) (hm : m ∈ members) :
    uniqueMember? members m.1 = some (some m.2) := by
  have hfilter : (members.filter fun k => k.1 == m.1) = [m] := by
    induction members with
    | nil => simp at hm
    | cons k rest ih =>
      rw [List.map_cons, List.nodup_cons] at hnodup
      rcases List.mem_cons.mp hm with rfl | hrest
      · have hnone : (rest.filter fun k => k.1 == m.1) = [] := by
          rw [List.filter_eq_nil_iff]
          intro k hk heq
          exact hnodup.1 (List.mem_map.mpr ⟨k, hk, eq_of_beq heq⟩)
        rw [List.filter_cons_of_pos (by exact beq_self_eq_true m.1), hnone]
      · have hne : (k.1 == m.1) = false := by
          refine beq_false_of_ne fun heq => hnodup.1 ?_
          exact List.mem_map.mpr ⟨m, hrest, heq.symm⟩
        rw [List.filter_cons_of_neg (by rw [hne]; exact Bool.false_ne_true), ih hnodup.2 hrest]
  rw [uniqueMember?, hfilter]

/-- The fields of a record that was written in full are the ones that were written. -/
theorem fields?_object (members : List (String × Json)) (hnodup : (members.map Prod.fst).Nodup) :
    fields? (members.map Prod.fst) (object members) = some (members.map fun m => some m.2) := by
  have hall : ∀ rest : List (String × Json), (∀ m ∈ rest, m ∈ members) →
      (rest.map Prod.fst).mapM (uniqueMember? members) = some (rest.map fun m => some m.2) := by
    intro rest
    induction rest with
    | nil => exact fun _ => rfl
    | cons m rest ih =>
      intro hsub
      rw [List.map_cons, List.mapM_cons, uniqueMember?_of_mem hnodup (hsub m List.mem_cons_self),
        ih fun k hk => hsub k (List.mem_cons_of_mem m hk)]
      rfl
  exact hall members fun _ hm => hm

/-- All items are within the bounds if each of them is. -/
theorem itemsWithin_eq_all (levels : Nat) (items : List Json) :
    itemsWithin levels items = items.all (isWithin levels) := by
  induction items with
  | nil => rfl
  | cons j rest ih => rw [itemsWithin, ih, List.all_cons]

/-- All members are within the bounds if each of them is. -/
theorem membersWithin_eq_all (levels : Nat) (members : List (String × Json)) :
    membersWithin levels members = members.all fun m => isWithin levels m.2 := by
  induction members with
  | nil => rfl
  | cons m rest ih => rw [membersWithin, ih, List.all_cons]

/-- The items of an array have one level less. -/
theorem isWithin_array {levels : Nat} {items : List Json} :
    isWithin (levels + 1) (array items) = true ↔ ∀ j ∈ items, isWithin levels j = true := by
  simp [isWithin, itemsWithin_eq_all]

/-- The members of an object have one level less. -/
theorem isWithin_object {levels : Nat} {members : List (String × Json)} :
    isWithin (levels + 1) (object members) = true ↔ ∀ m ∈ members, isWithin levels m.2 = true := by
  simp [isWithin, membersWithin_eq_all]

end Templating.Json
