import Mathlib.Data.List.TakeWhile
import Templating.Json.Reader
import Templating.Json.Writer

/-!
# Numbers in documents

A number that was written is read as the same number, whatever follows it that is not part of a
number. For integers this is a fact about decimal digits. For floats it is a question to the digits
that are printed, and is asked of the whole text of a single float: a float reads back if its text
alone is read as this float. Its text consists of nothing but the characters of numbers, so that it
is read in the same way inside a document.
-/

namespace Templating

namespace Number

/-- The digits of a number are decimal digits. -/
theorem digit?_of_isDigit {c : Char} (h : c.isDigit = true) : digit? c = some (c.toNat - 48) := by
  simp only [Char.isDigit, Bool.and_eq_true, decide_eq_true_eq] at h
  exact if_pos h

/-- Every digit that is written is a digit. -/
theorem isDigit_of_mem_toDigits {n : Nat} {c : Char} (h : c ∈ Nat.toDigits 10 n) :
    isDigit c = true := by
  rw [isDigit, digit?_of_isDigit (Nat.isDigit_of_mem_toDigits (by decide) (by decide) h)]
  rfl

/-- Reading digits one after another builds up the number of all of them. -/
theorem foldl_digit? {cs : List Char} (h : ∀ c ∈ cs, c.isDigit = true) (n : Nat) :
    cs.foldl (fun acc c => do return (← acc) * 10 + (← digit? c)) (some n) =
      some (Nat.ofDigitChars 10 cs n) := by
  induction cs generalizing n with
  | nil => rfl
  | cons c cs ih =>
    have hc : digit? c = some (c.toNat - 48) := digit?_of_isDigit (h c (by simp))
    have hstep : (do return (← some n) * 10 + (← digit? c) : Option Nat) =
        some (10 * n + (c.toNat - '0'.toNat)) := by
      rw [hc, Nat.mul_comm 10 n]
      rfl
    rw [List.foldl_cons, hstep, ih fun d hd => h d (List.mem_cons_of_mem _ hd)]
    rfl

/-- The digits of a number are read as the number. -/
theorem natOfDigits?_toDigits (n : Nat) : natOfDigits? (Nat.toDigits 10 n) = some n := by
  have hdigits : ∀ c ∈ Nat.toDigits 10 n, c.isDigit = true := fun c hc =>
    Nat.isDigit_of_mem_toDigits (by decide) (by decide) hc
  rw [natOfDigits?, if_neg (by simp [Nat.toDigits_ne_nil]), foldl_digit? hdigits,
    Nat.ofDigitChars_toDigits (by decide) (by decide)]

/-- A positive number is not written with a zero in front. -/
theorem head?_toDigits {n : Nat} (h : 0 < n) : (Nat.toDigits 10 n).head? ≠ some '0' := by
  induction n using Nat.strongRecOn with
  | ind n ih =>
    rcases Nat.lt_or_ge n 10 with hn | hn
    · rw [Nat.toDigits_of_lt_base hn]
      intro hzero
      have hnat := congrArg Char.toNat (Option.some.inj hzero)
      rw [Nat.toNat_digitChar_of_lt_ten hn, show '0'.toNat = 48 from rfl] at hnat
      omega
    · obtain ⟨c, rest, hc⟩ :=
        List.exists_cons_of_ne_nil (Nat.toDigits_ne_nil (n := n / 10) (b := 10))
      have hhead := ih (n / 10) (by omega) (by omega)
      rw [hc] at hhead
      rw [Nat.toDigits_of_base_le (by decide) hn, hc]
      exact hhead

open Float.Model in
/-- A float that has a mantissa and an exponent is finite. -/
theorem Binary.isFinite_of_ofFloat {x : Float} {negative : Bool} {m : Nat} {e : Int}
    (h : ofFloat x = .finite negative m e) : x.isFinite = true := by
  have hfield : (@UnpackedFloat.unpackExponent Format.binary64 x.toModel.toBits.toBitVec).toNat =
      x.toBits.toNat / Nat.pow 2 52 % Nat.pow 2 11 := by
    rw [show x.toBits.toNat = x.toModel.toBits.toBitVec.toNat from rfl]
    simp [UnpackedFloat.unpackExponent, Nat.shiftRight_eq_div_pow]
  -- only infinite floats and those that are no numbers have all bits of the exponent set
  have hexponent :
      @UnpackedFloat.unpackExponent Format.binary64 x.toModel.toBits.toBitVec ≠ -1#11 := by
    intro hones
    rw [hones] at hfield
    have hfull : x.toBits.toNat / Nat.pow 2 52 % Nat.pow 2 11 = 2047 := hfield.symm
    rw [ofFloat, ofBits, if_pos hfull] at h
    split at h <;> cases h
  refine (congrArg UnpackedFloat.isFinite (if_neg hexponent)).trans ?_
  by_cases hsubnormal :
      @UnpackedFloat.unpackExponent Format.binary64 x.toModel.toBits.toBitVec = 0#11
  · refine (congrArg UnpackedFloat.isFinite (if_pos hsubnormal)).trans ?_
    by_cases hzero : @UnpackedFloat.unpackMantissa Format.binary64 x.toModel.toBits.toBitVec = 0#52
    · exact congrArg UnpackedFloat.isFinite (dif_pos hzero)
    · exact congrArg UnpackedFloat.isFinite (dif_neg hzero)
  · exact congrArg UnpackedFloat.isFinite (if_neg hsubnormal)

end Number

namespace Json

/-- The characters of a number without its sign: a digit stands first. -/
structure IsNumeral (cs : List Char) : Prop where
  first : ∃ c rest, cs = c :: rest ∧ Number.isDigit c = true
  all : ∀ c ∈ cs, isNumberChar c = true

/-- What follows a number in a document: nothing that could be taken for a part of it. -/
def EndsNumber (rest : List Char) : Prop := ∀ c, rest.head? = some c → isNumberChar c = false

/-- The text is read as the number: an optional sign, then a numeral. -/
def IsNumberText (j : Json) (text : List Char) : Prop :=
  ∃ negative cs, text = (if negative then ['-'] else []) ++ cs ∧ IsNumeral cs ∧
    number? negative cs = some j

/-- Digits are characters of numbers. -/
theorem isNumberChar_of_isDigit {c : Char} (h : Number.isDigit c = true) :
    isNumberChar c = true := by
  simp [isNumberChar, h]

namespace IsNumeral

/-- Characters of numbers may follow a numeral. -/
theorem append {cs more : List Char} (h : IsNumeral cs)
    (hmore : ∀ c ∈ more, isNumberChar c = true) : IsNumeral (cs ++ more) where
  first := by
    obtain ⟨c, rest, rfl, hc⟩ := h.first
    exact ⟨c, rest ++ more, rfl, hc⟩
  all := fun c hc => (List.mem_append.mp hc).elim (h.all c) (hmore c)

/-- A non-empty row of digits is a numeral. -/
theorem ofDigits {cs : List Char} (hne : cs ≠ []) (h : ∀ c ∈ cs, Number.isDigit c = true) :
    IsNumeral cs where
  first := by
    obtain ⟨c, rest, rfl⟩ := List.exists_cons_of_ne_nil hne
    exact ⟨c, rest, rfl, h c (by simp)⟩
  all := fun c hc => isNumberChar_of_isDigit (h c hc)

/-- The digits of a number are a numeral. -/
theorem toDigits (n : Nat) : IsNumeral (Nat.toDigits 10 n) :=
  ofDigits Nat.toDigits_ne_nil fun _ => Number.isDigit_of_mem_toDigits

end IsNumeral

/-- All of the digits stand before the point, which is not there. -/
theorem takeWhile_toDigits (n : Nat) :
    (Nat.toDigits 10 n).takeWhile Number.isDigit = Nat.toDigits 10 n :=
  List.takeWhile_eq_self_iff.mpr fun _ => Number.isDigit_of_mem_toDigits

/-- Nothing stands behind the digits. -/
theorem dropWhile_toDigits (n : Nat) : (Nat.toDigits 10 n).dropWhile Number.isDigit = [] :=
  List.dropWhile_eq_nil_iff.mpr fun _ => Number.isDigit_of_mem_toDigits

/-- The digits of a number are no digits at all that could be refused. -/
theorem not_refused_toDigits (n : Nat) : ((Nat.toDigits 10 n).isEmpty ||
    ((Nat.toDigits 10 n).head? == some '0' && 1 < (Nat.toDigits 10 n).length)) = false := by
  rcases Nat.eq_zero_or_pos n with rfl | hpos
  · decide
  · simp [Nat.toDigits_ne_nil, Number.head?_toDigits hpos]

/-- The digits of a number of 64 bits are read as this number. -/
theorem number?_toDigits {n : Nat} (h : n < UInt64.size) :
    number? false (Nat.toDigits 10 n) = some (.int n) := by
  simp only [number?, takeWhile_toDigits, dropWhile_toDigits, not_refused_toDigits,
    Number.natOfDigits?_toDigits]
  rw [if_neg Bool.false_ne_true, if_neg Bool.false_ne_true, if_pos h]

/-- Behind a minus sign, the digits of a number are read as the negative number. -/
theorem number?_toDigits_of_negative {n : Nat} (hpos : 0 < n) (h : n ≤ Nat.pow 2 63) :
    number? true (Nat.toDigits 10 n) = some (.int (-(n : Int))) := by
  simp only [number?, takeWhile_toDigits, dropWhile_toDigits, not_refused_toDigits,
    Number.natOfDigits?_toDigits]
  rw [if_neg Bool.false_ne_true, if_pos trivial, if_neg (Nat.ne_of_gt hpos), if_pos h]

/-- The integer is a word of 64 bits, signed or unsigned. -/
def FitsWord (n : Int) : Prop := -(Nat.pow 2 63 : Int) ≤ n ∧ n < (UInt64.size : Int)

/-- The text of an integer of 64 bits is read as this integer. -/
theorem intText_isNumberText {n : Int} (h : FitsWord n) :
    IsNumberText (.int n) (Number.intText n).toList := by
  obtain ⟨hlow, hhigh⟩ := h
  cases n with
  | ofNat k =>
    refine ⟨false, Nat.toDigits 10 k, ?_, .toDigits k, ?_⟩
    · simp [Number.intText, Nat.toString_eq_repr, Nat.toList_repr]
    · exact number?_toDigits (Int.ofNat_lt.mp hhigh)
  | negSucc k =>
    refine ⟨true, Nat.toDigits 10 (k + 1), ?_, .toDigits (k + 1), ?_⟩
    · simp [Number.intText, Nat.toString_eq_repr, Nat.toList_repr]
    · exact number?_toDigits_of_negative (Nat.succ_pos k) (by omega)

/-- The digits of a number that are written as a string are those of the number. -/
theorem toList_toString (n : Nat) : (toString n).toList = Nat.toDigits 10 n := by
  rw [Nat.toString_eq_repr, Nat.toList_repr]

/-- The text of an integer consists of characters of numbers. -/
theorem isNumberChar_of_mem_intText {n : Int} {c : Char} (h : c ∈ (Number.intText n).toList) :
    isNumberChar c = true := by
  cases n with
  | ofNat k =>
    rw [Number.intText, toList_toString] at h
    exact (IsNumeral.toDigits k).all c h
  | negSucc k =>
    rw [Number.intText, String.toList_append, toList_toString] at h
    rcases List.mem_append.mp h with h | h
    · simp only [String.reduceToList, List.mem_singleton] at h
      rw [h]
      decide
    · exact (IsNumeral.toDigits (k + 1)).all c h

/-- Zeros are characters of numbers. -/
theorem isNumberChar_of_mem_zeros {n : Nat} {c : Char} (h : c ∈ (Number.zeros n).toList) :
    isNumberChar c = true := by
  rw [Number.zeros, String.toList_ofList] at h
  rw [List.eq_of_mem_replicate h]
  decide

/-- Digits with an exponent are a numeral: one digit stands before the point. -/
theorem mantissa_isNumeral (n : Nat) : IsNumeral
    (match Nat.toDigits 10 n with
      | [] => ""
      | [c] => c.toString
      | c :: cs => c.toString ++ "." ++ String.ofList cs).toList := by
  have hall : ∀ c ∈ Nat.toDigits 10 n, Number.isDigit c = true := fun _ =>
    Number.isDigit_of_mem_toDigits
  split
  · next hnil => exact absurd hnil Nat.toDigits_ne_nil
  · next c hc =>
    rw [hc] at hall
    rw [Char.toString_eq_singleton, String.toList_singleton]
    exact .ofDigits (List.cons_ne_nil c []) hall
  · next c cs _ hcs =>
    rw [hcs] at hall
    have hfirst : IsNumeral [c] := .ofDigits (List.cons_ne_nil c []) fun d hd =>
      hall d (by rw [List.mem_singleton.mp hd]; exact List.mem_cons_self)
    have hpoint : ∀ d ∈ ".".toList, isNumberChar d = true :=
      List.all_eq_true.mp (by decide)
    simp only [String.toList_append, String.toList_ofList, Char.toString_eq_singleton,
      String.toList_singleton]
    exact (hfirst.append hpoint).append fun d hd =>
      isNumberChar_of_isDigit (hall d (List.mem_cons_of_mem c hd))

/-- However the digits of a float are laid out, they are a numeral. -/
theorem decimalText_isNumeral (d : Number.Decimal) : IsNumeral (d.text .json).toList := by
  have hdigits := IsNumeral.toDigits d.digits
  simp only [Number.Decimal.text, Number.FloatStyle.json, toList_toString]
  split
  · split
    · have hfraction : ∀ c ∈ ".0".toList, isNumberChar c = true :=
        List.all_eq_true.mp (by decide)
      simp only [String.toList_append, toList_toString]
      exact (hdigits.append fun _ => isNumberChar_of_mem_zeros).append hfraction
    · split
      · next hpoint =>
        have hdot : ∀ c ∈ ".".toList, isNumberChar c = true := List.all_eq_true.mp (by decide)
        have htake : IsNumeral ((Nat.toDigits 10 d.digits).take
            (((toString d.digits).length : Int) + d.exponent).toNat) := by
          refine .ofDigits ?_ fun c hc => Number.isDigit_of_mem_toDigits (List.mem_of_mem_take hc)
          rw [ne_eq, List.take_eq_nil_iff]
          exact not_or.mpr ⟨by omega, Nat.toDigits_ne_nil⟩
        simp only [String.toList_append, String.toList_ofList]
        exact (htake.append hdot).append fun c hc => hdigits.all c (List.mem_of_mem_drop hc)
      · have hzero : IsNumeral "0.".toList :=
          ⟨⟨'0', ['.'], rfl, by decide⟩, List.all_eq_true.mp (by decide)⟩
        simp only [String.toList_append, toList_toString]
        exact (hzero.append fun _ => isNumberChar_of_mem_zeros).append hdigits.all
  · have hexponent : ∀ c ∈ "e".toList, isNumberChar c = true := List.all_eq_true.mp (by decide)
    have hsign : ∀ (b : Prop) [Decidable b], ∀ c ∈ (if b then "+" else "").toList,
        isNumberChar c = true := by
      intro b _ c hc
      split at hc
      · have hplus : ∀ c ∈ "+".toList, isNumberChar c = true := List.all_eq_true.mp (by decide)
        exact hplus c hc
      · simp at hc
    simp only [String.toList_append]
    exact (((mantissa_isNumeral d.digits).append hexponent).append (hsign _)).append
      fun _ => isNumberChar_of_mem_intText

/-- The text of a float that is a number is a numeral behind an optional sign. -/
theorem floatText_eq (x : Float) : (∃ (negative : Bool) (cs : List Char), IsNumeral cs ∧
    (Number.floatText .json x).toList = (if negative then ['-'] else []) ++ cs) ∨
      Number.floatText .json x = "null" := by
  unfold Number.floatText
  split
  · exact .inr rfl
  · exact .inr rfl
  · exact .inr rfl
  · next negative m e _ =>
    refine .inl ⟨negative, ?_⟩
    have hzero : IsNumeral "0.0".toList :=
      ⟨⟨'0', ['.', '0'], rfl, by decide⟩, List.all_eq_true.mp (by decide)⟩
    have hsigned :
        (negative && (decide (m ≠ 0) || Number.FloatStyle.json.signedZero)) = negative := by
      simp [Number.FloatStyle.json]
    have hwhole : (Number.Binary.isWhole m e &&
        decide (Number.Binary.truncated m e < Number.FloatStyle.json.wholeBelow)) = false := by
      simp [Number.FloatStyle.json]
    simp only [hsigned, hwhole]
    by_cases hm : m = 0
    · refine ⟨"0.0".toList, hzero, ?_⟩
      rw [if_pos hm]
      cases negative <;> rfl
    · refine ⟨((Number.shortest .even m e).text .json).toList, decimalText_isNumeral _, ?_⟩
      simp only [if_neg hm, if_neg Bool.false_ne_true]
      cases negative with
      | false => rfl
      | true => exact String.toList_append

/-- Infinite floats and those that are no numbers are written as null. -/
theorem floatText_of_not_finite {x : Float} (h : x.isFinite = false) :
    Number.floatText .json x = "null" := by
  unfold Number.floatText
  split
  · rfl
  · rfl
  · rfl
  · next hparts => exact absurd (Number.Binary.isFinite_of_ofFloat hparts) (by simp [h])

/-- The text of the float is read as this float. -/
def ReadsBack (x : Float) : Prop :=
  read? (Number.floatText .json x).toList = some (.float x)

end Json

end Templating
