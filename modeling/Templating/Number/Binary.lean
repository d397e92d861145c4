/-!
# Binary floating point numbers, taken apart

A double is a sign, a whole mantissa and a power of two, read off its 64 bits. Everything that has
to be exact about a double (its digits, its fraction, its remainder) is computed on these three
parts with whole numbers.
-/

namespace Templating.Number

/-- What the bits of a double stand for. -/
inductive Binary where
  /-- Not a number. -/
  | nan
  /-- An infinity and its sign. -/
  | infinite (negative : Bool)
  /-- The number `± mantissa · 2 ^ exponent`. -/
  | finite (negative : Bool) (mantissa : Nat) (exponent : Int)
  deriving Repr, DecidableEq, Inhabited

namespace Binary

/-- Read the sign, exponent and mantissa fields of the 64 bits. -/
def ofBits (bits : Nat) : Binary :=
  let negative := bits / Nat.pow 2 63 % 2 == 1
  let field : Nat := bits / Nat.pow 2 52 % Nat.pow 2 11
  let fraction : Nat := bits % Nat.pow 2 52
  if field = 2047 then
    if fraction = 0 then .infinite negative else .nan
  else if field = 0 then .finite negative fraction (-1074)
  else .finite negative (Nat.pow 2 52 + fraction) ((field : Int) - 1075)

/-- Take a double apart. -/
def ofFloat (x : Float) : Binary := ofBits x.toBits.toNat

/-- The integer part, dropping the fraction, of the number `mantissa · 2 ^ exponent`. -/
def truncated (mantissa : Nat) (exponent : Int) : Nat :=
  match exponent with
  | .ofNat e => mantissa * Nat.pow 2 e
  | .negSucc e => mantissa / Nat.pow 2 (e + 1)

/-- The number `mantissa · 2 ^ exponent` is whole. -/
def isWhole (mantissa : Nat) (exponent : Int) : Bool :=
  match exponent with
  | .ofNat _ => true
  | .negSucc e => mantissa % Nat.pow 2 (e + 1) == 0

/-- The whole number a double stands for, if it stands for one. -/
def toInt? : Binary → Option Int
  | .finite negative m e =>
    if isWhole m e then
      some (if negative then -(truncated m e : Int) else (truncated m e : Int))
    else none
  | _ => none

end Binary

/-- The double nearest to a whole number, ties to even. -/
def floatOfNat (n : Nat) : Float := Float.ofScientific n false 0

/-- The double nearest to an integer, ties to even. -/
def floatOfInt : Int → Float
  | .ofNat n => floatOfNat n
  | .negSucc n => -(floatOfNat (n + 1))

/-- The double `± mantissa · 2 ^ exponent` for a mantissa of at most 53 bits and an exponent of at
least -1074, which needs no rounding. The mantissa is moved up as far as the exponent allows. -/
def floatOfParts (negative : Bool) (mantissa : Nat) (exponent : Int) : Float :=
  let shift := min (52 - mantissa.log2) (exponent + 1074).toNat
  let m := mantissa * Nat.pow 2 shift
  let field := (exponent - shift + 1075).toNat
  let magnitude := if m < Nat.pow 2 52 then m else field * Nat.pow 2 52 + (m - Nat.pow 2 52)
  Float.ofBits (UInt64.ofNat ((if negative then Nat.pow 2 63 else 0) + magnitude))

/-- The remainder of dividing doubles, with the quotient truncated toward zero. The result is exact
and has the sign of the dividend. -/
def floatRem (a b : Float) : Float :=
  match Binary.ofFloat a, Binary.ofFloat b with
  | .finite negative m e, .finite _ n f =>
    if n = 0 then 0.0 / 0.0
    else
      let low := min e f
      let x := m * Nat.pow 2 (e - low).toNat
      let y := n * Nat.pow 2 (f - low).toNat
      floatOfParts negative (x % y) low
  | .finite .., .infinite _ => a
  | _, _ => 0.0 / 0.0

end Templating.Number
