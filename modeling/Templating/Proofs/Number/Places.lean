import Mathlib
import Templating.Value.Order

/-!
# The places of floats

A float has a place on a line: negative infinity, the negative numbers, the two zeros, the positive
numbers, positive infinity, and behind them what is not a number. Floats are ordered by their
places, so their order is reflexive, symmetric and transitive.
-/

namespace Templating

open Float.Model

namespace Number

/-- Where a number stands: what kind of number it is, its exponent and its mantissa, the latter two
reversed for negative numbers. -/
def placeOf : UnpackedFloat → Int × Int × Int
  | .infinity .negative => (-2, 0, 0)
  | .finite .negative m e _ => (-1, -e, -m)
  | .zero _ => (0, 0, 0)
  | .finite .positive m e _ => (1, e, m)
  | .infinity .positive => (2, 0, 0)
  | .notANumber => (3, 0, 0)

/-- The place of a float. -/
def place (x : Float) : Int × Int × Int := placeOf x.toModel.unpack

/-- Places are ordered by their parts from left to right. -/
def comparePlaces : Int × Int × Int → Int × Int × Int → Ordering :=
  compareLex (compareOn Prod.fst)
    (compareLex (compareOn fun p => p.2.1) (compareOn fun p => p.2.2))

instance : Std.TransCmp comparePlaces := by
  unfold comparePlaces
  infer_instance

/-- Numbers of different kinds are ordered by their kinds. -/
theorem comparePlaces_of_fst_lt {p q : Int × Int × Int} (h : p.1 < q.1) :
    comparePlaces p q = .lt := by
  simp [comparePlaces, compareLex, compareOn, Int.compare_eq_lt.mpr h]

/-- Numbers of different kinds are ordered by their kinds. -/
theorem comparePlaces_of_fst_gt {p q : Int × Int × Int} (h : q.1 < p.1) :
    comparePlaces p q = .gt := by
  simp [comparePlaces, compareLex, compareOn, Int.compare_eq_gt.mpr h]

/-- Numbers of one kind are ordered by exponents and mantissas. -/
theorem comparePlaces_same (i : Int) (p q : Int × Int) :
    comparePlaces (i, p) (i, q) = (compare p.1 q.1).then (compare p.2 q.2) := by
  simp [comparePlaces, compareLex, compareOn]

/-- Negation reverses the order of integers. -/
theorem compare_neg (a b : Int) : compare (-a) (-b) = (compare a b).swap := by
  rcases Int.lt_trichotomy a b with h | rfl | h
  · rw [Int.compare_eq_lt.mpr h, Int.compare_eq_gt.mpr (Int.neg_lt_neg h)]
    rfl
  · simp
  · rw [Int.compare_eq_gt.mpr h, Int.compare_eq_lt.mpr (Int.neg_lt_neg h)]
    rfl

/-- Naturals are ordered as integers. -/
theorem compare_natCast (a b : Nat) : compare (a : Int) (b : Int) = compare a b := by
  rcases Nat.lt_trichotomy a b with h | rfl | h
  · rw [Nat.compare_eq_lt.mpr h, Int.compare_eq_lt.mpr (Int.ofNat_lt.mpr h)]
  · simp
  · rw [Nat.compare_eq_gt.mpr h, Int.compare_eq_gt.mpr (Int.ofNat_lt.mpr h)]

/-- Numbers are compared by their places. -/
theorem compare_eq_comparePlaces {a b : UnpackedFloat} (ha : a.isNaN = false)
    (hb : b.isNaN = false) : a.compare b = some (comparePlaces (placeOf a) (placeOf b)) := by
  match a, b with
  | .infinity .negative, .infinity .negative | .infinity .positive, .infinity .positive
  | .zero _, .zero _ => rfl
  | .infinity .negative, .infinity .positive | .infinity .negative, .zero _
  | .infinity .negative, .finite .negative .. | .infinity .negative, .finite .positive ..
  | .finite .negative .., .zero _ | .finite .negative .., .finite .positive ..
  | .finite .negative .., .infinity .positive | .zero _, .finite .positive ..
  | .zero _, .infinity .positive | .finite .positive .., .infinity .positive =>
    exact congrArg some (comparePlaces_of_fst_lt (by simp [placeOf])).symm
  | .infinity .positive, .infinity .negative | .zero _, .infinity .negative
  | .finite .negative .., .infinity .negative | .finite .positive .., .infinity .negative
  | .zero _, .finite .negative .. | .finite .positive .., .finite .negative ..
  | .infinity .positive, .finite .negative .. | .finite .positive .., .zero _
  | .infinity .positive, .zero _ | .infinity .positive, .finite .positive .. =>
    exact congrArg some (comparePlaces_of_fst_gt (by simp [placeOf])).symm
  | .finite .negative m e _, .finite .negative n f _ =>
    simp only [UnpackedFloat.compare, placeOf, comparePlaces_same, compare_neg, compare_natCast,
      Ordering.swap_then]
  | .finite .positive m e _, .finite .positive n f _ =>
    simp only [UnpackedFloat.compare, placeOf, comparePlaces_same, compare_natCast]

/-- What is not a number cannot be compared. -/
theorem compare_eq_none {a b : UnpackedFloat} (h : a.isNaN = true ∨ b.isNaN = true) :
    a.compare b = none := by
  rcases h with h | h
  · cases a with
    | notANumber => rfl
    | _ => simp [UnpackedFloat.isNaN] at h
  · cases b with
    | notANumber => cases a <;> rfl
    | _ => simp [UnpackedFloat.isNaN] at h

end Number

section Floats

variable {a b : Float}

/-- A float is less than another if it compares so. -/
theorem float_lt_iff : a < b ↔ a.toModel.unpack.compare b.toModel.unpack = some .lt := by
  show a.lt b = true ↔ _
  rw [Float.lt, decide_eq_true_iff]
  show a.toModel.unpack.lt b.toModel.unpack = true ↔ _
  rw [UnpackedFloat.lt, beq_iff_eq]

/-- A float equals another if it compares so. -/
theorem float_beq_iff : (a == b) = true ↔ a.toModel.unpack.compare b.toModel.unpack = some .eq := by
  show a.toModel.unpack.beq b.toModel.unpack = true ↔ _
  rw [UnpackedFloat.beq, beq_iff_eq]

/-- Numbers are compared by their places. -/
theorem compare_toModel (ha : a.isNaN = false) (hb : b.isNaN = false) :
    a.toModel.unpack.compare b.toModel.unpack =
      some (Number.comparePlaces (Number.place a) (Number.place b)) :=
  Number.compare_eq_comparePlaces ha hb

/-- Numbers are ordered by their places. -/
theorem compareFloat?_eq_comparePlaces (ha : a.isNaN = false) (hb : b.isNaN = false) :
    compareFloat? a b = some (Number.comparePlaces (Number.place a) (Number.place b)) := by
  have hswap : Number.comparePlaces (Number.place b) (Number.place a) =
      (Number.comparePlaces (Number.place a) (Number.place b)).swap := Std.OrientedCmp.eq_swap
  simp only [compareFloat?, float_lt_iff, float_beq_iff, compare_toModel ha hb,
    compare_toModel hb ha, hswap, Option.some.injEq]
  cases Number.comparePlaces (Number.place a) (Number.place b) <;> rfl

/-- What is not a number cannot be compared. -/
theorem compareFloat?_eq_none (h : a.isNaN = true ∨ b.isNaN = true) : compareFloat? a b = none := by
  have hab : a.toModel.unpack.compare b.toModel.unpack = none := Number.compare_eq_none h
  have hba : b.toModel.unpack.compare a.toModel.unpack = none := Number.compare_eq_none h.symm
  simp [compareFloat?, float_lt_iff, float_beq_iff, hab, hba]

/-- Where floats can be compared, their total order is the same. -/
theorem compareFloatTotal_of_compareFloat? {o : Ordering} (h : compareFloat? a b = some o) :
    compareFloatTotal a b = o := by
  have hnumber (hnan : a.isNaN = true ∨ b.isNaN = true) : False := by
    simp [compareFloat?_eq_none hnan] at h
  have ha : a.isNaN = false := Bool.eq_false_iff.mpr fun hnan => hnumber (.inl hnan)
  have hb : b.isNaN = false := Bool.eq_false_iff.mpr fun hnan => hnumber (.inr hnan)
  rw [compareFloatTotal, ha, hb, h]
  rfl

/-- What is not a number stands behind all numbers. -/
theorem place_of_isNaN (h : a.isNaN = true) : Number.place a = (3, 0, 0) := by
  replace h : a.toModel.unpack.isNaN = true := h
  rw [Number.place]
  match a.toModel.unpack, h with
  | .notANumber, _ => rfl

/-- Numbers stand before what is not a number. -/
theorem place_fst_lt (h : a.isNaN = false) : (Number.place a).1 < 3 := by
  replace h : a.toModel.unpack.isNaN = false := h
  rw [Number.place]
  match a.toModel.unpack, h with
  | .infinity .negative, _ | .infinity .positive, _ | .zero _, _ => simp [Number.placeOf]
  | .finite .negative .., _ | .finite .positive .., _ => simp [Number.placeOf]

/-- Floats are ordered by their places. -/
theorem compareFloatTotal_eq_comparePlaces (a b : Float) :
    compareFloatTotal a b = Number.comparePlaces (Number.place a) (Number.place b) := by
  rw [compareFloatTotal]
  cases ha : a.isNaN with
  | true =>
    cases hb : b.isNaN with
    | true => rw [place_of_isNaN ha, place_of_isNaN hb]; rfl
    | false => exact (Number.comparePlaces_of_fst_gt (place_of_isNaN ha ▸ place_fst_lt hb)).symm
  | false =>
    cases hb : b.isNaN with
    | true => exact (Number.comparePlaces_of_fst_lt (place_of_isNaN hb ▸ place_fst_lt ha)).symm
    | false =>
      rw [compareFloat?_eq_comparePlaces ha hb]
      rfl

instance : Std.TransCmp compareFloatTotal where
  eq_swap := by
    intro a b
    simpa only [compareFloatTotal_eq_comparePlaces] using Std.OrientedCmp.eq_swap
  isLE_trans := by
    intro a b c
    simpa only [compareFloatTotal_eq_comparePlaces] using Std.TransCmp.isLE_trans

end Floats

end Templating
