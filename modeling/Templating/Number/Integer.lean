/-!
# Integers of 64 bits

Template integers are 64 bit words, and no operation on them wraps: a result is either the exact
integer or refused. Every operation is therefore the operation on `Int` followed by one range
check, `toWord?`.
-/

namespace Templating.Number

/-- The integer lies in the signed 64 bit range. -/
def fitsInt64 (n : Int) : Bool := -9223372036854775808 ≤ n && n ≤ 9223372036854775807

/-- The word holding exactly this integer, if there is one. -/
def toWord? (n : Int) : Option Int64 := if fitsInt64 n then some (Int64.ofInt n) else none

/-- Exact sum. -/
def add? (a b : Int64) : Option Int64 := toWord? (a.toInt + b.toInt)

/-- Exact difference. -/
def sub? (a b : Int64) : Option Int64 := toWord? (a.toInt - b.toInt)

/-- Exact product. -/
def mul? (a b : Int64) : Option Int64 := toWord? (a.toInt * b.toInt)

/-- Exact negation. -/
def neg? (a : Int64) : Option Int64 := toWord? (-a.toInt)

/-- Remainder of the division that truncates toward zero. It is refused where the quotient has no
word, which is division by zero and the least integer by minus one. -/
def rem? (a b : Int64) : Option Int64 :=
  if b.toInt = 0 then none
  else if (toWord? (a.toInt.tdiv b.toInt)).isNone then none
  else toWord? (a.toInt.tmod b.toInt)

/-- An exact word reads back as its integer. -/
theorem toInt_of_toWord? {n : Int} {w : Int64} (h : toWord? n = some w) : w.toInt = n := by
  unfold toWord? at h
  split at h
  · next hf =>
    simp only [fitsInt64, Bool.and_eq_true, decide_eq_true_eq] at hf
    obtain rfl := Option.some.inj h
    exact Int64.toInt_ofInt_of_le (by simp; omega) (by simp; omega)
  · simp at h

/-- The integer of a word has this word. -/
theorem toWord?_toInt (w : Int64) : toWord? w.toInt = some w := by
  have hfits : fitsInt64 w.toInt = true := by
    have hlow := w.le_toInt
    have hhigh := w.toInt_lt
    simp only [fitsInt64, Bool.and_eq_true, decide_eq_true_eq]
    omega
  rw [toWord?, if_pos hfits, Int64.ofInt_toInt]

/-- Decimal text of an integer: its digits, after a minus sign if it is negative. -/
def intText (n : Int) : String :=
  match n with
  | .ofNat k => toString k
  | .negSucc k => "-" ++ toString (k + 1)

/-- Value of a decimal digit. -/
def digit? (c : Char) : Option Nat :=
  if '0' ≤ c ∧ c ≤ '9' then some (c.toNat - 48) else none

/-- An ASCII decimal digit. -/
def isDigit (c : Char) : Bool := (digit? c).isSome

/-- Read a non-empty run of decimal digits, most significant first. -/
def natOfDigits? (cs : List Char) : Option Nat :=
  if cs.isEmpty then none
  else cs.foldl (fun acc c => do return (← acc) * 10 + (← digit? c)) (some 0)

/-- Read an unsigned integer, which may carry a plus sign. -/
def unsigned? : List Char → Option Nat
  | '+' :: cs => natOfDigits? cs
  | cs => natOfDigits? cs

/-- Read an integer with an optional sign. -/
def signed? : List Char → Option Int
  | '-' :: cs => (natOfDigits? cs).map fun n => -(n : Int)
  | '+' :: cs => (natOfDigits? cs).map fun n => (n : Int)
  | cs => (natOfDigits? cs).map fun n => (n : Int)

end Templating.Number
