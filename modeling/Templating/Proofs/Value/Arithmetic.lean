import Templating.Value.Arithmetic

/-!
# Arithmetic on integers

Sums, differences, products, remainders and negations of integers are the exact integers or are
refused: nothing wraps, and no float comes up. They are refused where the exact result has no word.
The remainder of two words always has one, but it is computed together with the quotient, so that it
is also refused where only the quotient has none.
-/

namespace Templating

namespace Number

/-- Integers beyond the ends of the range have no word. -/
theorem toWord?_eq_none {n : Int} (h : n < -9223372036854775808 ∨ 9223372036854775807 < n) :
    toWord? n = none := by
  have hout : ¬ fitsInt64 n = true := by
    simp only [fitsInt64, Bool.and_eq_true, decide_eq_true_eq]
    omega
  rw [toWord?, if_neg hout]

/-- Integers within the range have a word. -/
theorem exists_toWord? {n : Int} (hlow : -9223372036854775808 ≤ n)
    (hhigh : n ≤ 9223372036854775807) : ∃ w : Int64, w.toInt = n ∧ toWord? n = some w := by
  refine ⟨Int64.ofInt n, Int64.toInt_ofInt_of_le hlow (Int.lt_add_one_of_le hhigh), if_pos ?_⟩
  simp only [fitsInt64, Bool.and_eq_true, decide_eq_true_eq]
  omega

/-- Unless the divisor is zero or the quotient leaves the range, the remainder is that of words. -/
theorem rem?_eq_some {a b : Int64} (hb : b ≠ 0) (hq : ¬ (a = Int64.minValue ∧ b = -1)) :
    rem? a b = some (a % b) := by
  -- where words divide exactly, the quotient and the remainder are words, so both checks pass
  have hzero : b.toInt ≠ 0 := fun h => hb (Int64.toInt_inj.mp h)
  have hquotient : a.toInt.tdiv b.toInt = (a / b).toInt := by
    by_cases ha : a = Int64.minValue
    · exact (Int64.toInt_div_of_ne_right a b fun h => hq ⟨ha, h⟩).symm
    · exact (Int64.toInt_div_of_ne_left a b ha).symm
  rw [rem?, if_neg hzero, hquotient, toWord?_toInt, if_neg (by simp), ← Int64.toInt_mod,
    toWord?_toInt]

/-- There is no remainder by zero, and none where the quotient leaves the range. -/
theorem rem?_eq_none {a b : Int64} (h : b = 0 ∨ a = Int64.minValue ∧ b = -1) :
    rem? a b = none := by
  obtain rfl | ⟨rfl, rfl⟩ := h <;> rfl

end Number

namespace Value

/-- The operation is refused as one that has no result. -/
def Refused (r : Result Value) : Prop := ∃ e, r = .error e ∧ e.kind = .invalidOperation

/-- The result is exactly this integer, as an integer. -/
def IsInt (r : Result Value) (n : Int) : Prop := ∃ w : Int64, w.toInt = n ∧ r = .ok (int w)

/-- The result is the integer if it lies within 64 bits, and otherwise the operation is refused. -/
structure Computes (r : Result Value) (n : Int) : Prop where
  exact : -9223372036854775808 ≤ n → n ≤ 9223372036854775807 → IsInt r n
  refused : n < -9223372036854775808 ∨ 9223372036854775807 < n → Refused r

/-- No result, in the operators on two integers. -/
theorem refused_exactly (op : String) (a b : Int64) : Refused (exactly op a b none) :=
  ⟨_, rfl, rfl⟩

/-- Operators on two integers that look for the word of their result compute it. -/
theorem computes_exactly (op : String) (a b : Int64) (n : Int) :
    Computes (exactly op a b (Number.toWord? n)) n where
  exact hlow hhigh := by
    obtain ⟨w, hw, hword⟩ := Number.exists_toWord? hlow hhigh
    exact ⟨w, hw, by rw [hword]; rfl⟩
  refused hout := by
    rw [Number.toWord?_eq_none hout]
    exact refused_exactly op a b

/-- Negation computes the negative. -/
theorem computes_neg (a : Int64) : Computes (int a).neg (-a.toInt) where
  exact hlow hhigh := by
    obtain ⟨w, hw, hword⟩ := Number.exists_toWord? hlow hhigh
    exact ⟨w, hw, by rw [neg, Number.neg?, hword]⟩
  refused hout := by
    rw [neg, Number.neg?, Number.toWord?_eq_none hout]
    exact ⟨_, rfl, rfl⟩

/-- The remainder of two integers is that of their words, if they have one. -/
theorem rem_eq_exactly (a b : Int64) :
    (int a).rem (int b) = exactly "%" a b (Number.rem? a b) := rfl

/-- Sums, differences, products and negations of integers are computed exactly or refused where they
do not lie within 64 bits. Remainders, which always do, are exact unless the divisor is zero or the
quotient does not lie within 64 bits, and then they are refused. -/
theorem integer_arithmetic_exact (a b : Int64) :
    Computes ((int a).add (int b)) (a.toInt + b.toInt) ∧
    Computes ((int a).sub (int b)) (a.toInt - b.toInt) ∧
    Computes ((int a).mul (int b)) (a.toInt * b.toInt) ∧
    Computes (int a).neg (-a.toInt) ∧
    (b ≠ 0 → ¬ (a = Int64.minValue ∧ b = -1) →
      IsInt ((int a).rem (int b)) (a.toInt.tmod b.toInt)) ∧
    (b = 0 ∨ a = Int64.minValue ∧ b = -1 → Refused ((int a).rem (int b))) := by
  refine ⟨computes_exactly "+" a b _, computes_exactly "-" a b _, computes_exactly "*" a b _,
    computes_neg a, fun hb hq => ?_, fun hnone => ?_⟩
  · rw [rem_eq_exactly, Number.rem?_eq_some hb hq]
    exact ⟨a % b, Int64.toInt_mod a b, rfl⟩
  · rw [rem_eq_exactly, Number.rem?_eq_none hnone]
    exact refused_exactly "%" a b

/-- At the ends of the range: the least integer has no negative and no predecessor, its product with
one is itself, its remainder by three is negative, and there is no remainder by zero. -/
theorem integer_arithmetic_exact_at_ends :
    Refused (int Int64.minValue).neg ∧ Refused ((int Int64.minValue).sub (int 1)) ∧
      IsInt ((int Int64.minValue).mul (int 1)) (-9223372036854775808) ∧
      IsInt ((int Int64.minValue).rem (int 3)) (-2) ∧
      Refused ((int Int64.minValue).rem (int 0)) := by
  obtain ⟨-, hsub, hmul, hneg, -, -⟩ := integer_arithmetic_exact Int64.minValue 1
  obtain ⟨-, -, -, -, hrem, -⟩ := integer_arithmetic_exact Int64.minValue 3
  obtain ⟨-, -, -, -, -, hzero⟩ := integer_arithmetic_exact Int64.minValue 0
  exact ⟨hneg.refused (.inr (by decide)), hsub.refused (.inl (by decide)),
    hmul.exact (by decide) (by decide), hrem (by decide) (by decide), hzero (.inl rfl)⟩

/-- The least integer has no remainder by minus one, although it is a multiple of it. -/
theorem not_forall_rem_exact :
    ¬ ∀ a b : Int64, b ≠ 0 → IsInt ((int a).rem (int b)) (a.toInt.tmod b.toInt) := by
  intro h
  obtain ⟨w, -, hresult⟩ := h Int64.minValue (-1) (by decide)
  rw [rem_eq_exactly, Number.rem?_eq_none (.inr ⟨rfl, rfl⟩)] at hresult
  cases hresult

end Value

end Templating
