import Templating.Number.Binary
import Templating.Number.Shortest
import Templating.Number.Integer

/-!
# Decimal text of floating point numbers

One printer with three styles. Template output writes whole numbers without a fraction and never
uses an exponent; error messages name a number token the same way but by its shortest digits; JSON
keeps a fraction or an exponent so that the number stays a float. Reading goes the other way: a
decimal text denotes the nearest double, ties to even.
-/

namespace Templating.Number

/-- How the digits of a double are laid out. -/
structure FloatStyle where
  /-- Whole numbers of smaller magnitude are written digit by digit, without shortening. -/
  wholeBelow : Nat
  /-- Magnitudes (digits before the point) that are written without an exponent. -/
  positional : Int → Bool
  /-- Whole numbers keep the fraction `.0`. -/
  keepFraction : Bool
  /-- Negative zero keeps its sign. -/
  signedZero : Bool
  tie : TieRule
  nan : String
  infinity : String
  negativeInfinity : String

/-- Template output: whole numbers below `10 ^ 21` have no fraction, nothing has an exponent. -/
def FloatStyle.output : FloatStyle :=
  { wholeBelow := Nat.pow 10 21, positional := fun _ => true, keepFraction := false,
    signedZero := false, tie := .up, nan := "NaN", infinity := "Infinity",
    negativeInfinity := "-Infinity" }

/-- A number token quoted in a message: shortest digits, never an exponent. -/
def FloatStyle.quoted : FloatStyle :=
  { wholeBelow := 0, positional := fun _ => true, keepFraction := false, signedZero := true,
    tie := .up, nan := "NaN", infinity := "inf", negativeInfinity := "-inf" }

/-- JSON: `.0` on whole numbers, an exponent from `10 ^ 16` on and below `10 ^ -5`. -/
def FloatStyle.json : FloatStyle :=
  { wholeBelow := 0, positional := fun k => -5 < k && k ≤ 16, keepFraction := true,
    signedZero := true, tie := .even, nan := "null", infinity := "null",
    negativeInfinity := "null" }

/-- A run of zeros. -/
def zeros (n : Nat) : String := String.ofList (List.replicate n '0')

/-- Lay out the digits `digits · 10 ^ exponent` of a positive number. -/
def Decimal.text (style : FloatStyle) (d : Decimal) : String :=
  let digits := toString d.digits
  let point : Int := digits.length + d.exponent
  let fraction := if style.keepFraction then ".0" else ""
  if style.positional point then
    if 0 ≤ d.exponent then digits ++ zeros d.exponent.toNat ++ fraction
    else if 0 < point then
      let k := point.toNat
      String.ofList (digits.toList.take k) ++ "." ++ String.ofList (digits.toList.drop k)
    else "0." ++ zeros (-point).toNat ++ digits
  else
    let power := point - 1
    let mantissa := match digits.toList with
      | [] => ""
      | [c] => c.toString
      | c :: cs => c.toString ++ "." ++ String.ofList cs
    mantissa ++ "e" ++ (if 0 ≤ power then "+" else "") ++ intText power

/-- The text of a double in the given style. -/
def floatText (style : FloatStyle) (x : Float) : String :=
  match Binary.ofFloat x with
  | .nan => style.nan
  | .infinite false => style.infinity
  | .infinite true => style.negativeInfinity
  | .finite negative m e =>
    let magnitude :=
      if m = 0 then "0" ++ (if style.keepFraction then ".0" else "")
      else if Binary.isWhole m e && Binary.truncated m e < style.wholeBelow then
        toString (Binary.truncated m e)
      else (shortest style.tie m e).text style
    if negative && (m ≠ 0 || style.signedZero) then "-" ++ magnitude else magnitude

/-- The parts of a decimal number text: digits, fraction digits and exponent. -/
structure DecimalText where
  negative : Bool
  digits : Nat
  exponent : Int

/-- The nearest double. -/
def DecimalText.toFloat (d : DecimalText) : Float :=
  let x :=
    if d.digits = 0 then 0.0
    else
      let top := (toString d.digits).length + d.exponent
      if 400 < top then 1.0 / 0.0
      else if top < -400 then 0.0
      else Float.ofScientific d.digits (d.exponent < 0) d.exponent.natAbs
  if d.negative then -x else x

/-- Read an unsigned decimal number: digits with an optional fraction and an optional exponent.
At least one digit stands before or after the point, and at least one in an exponent. -/
def decimal? (cs : List Char) : Option DecimalText :=
  let whole := cs.takeWhile isDigit
  let (part, rest) := match cs.dropWhile isDigit with
    | '.' :: more => (more.takeWhile isDigit, more.dropWhile isDigit)
    | more => ([], more)
  if whole.isEmpty && part.isEmpty then none
  else
    let digits := ((whole ++ part).filterMap digit?).foldl (fun n d => n * 10 + d) 0
    match rest with
    | [] => some ⟨false, digits, -(part.length : Int)⟩
    | e :: power =>
      if e = 'e' ∨ e = 'E' then
        (signed? power).map fun p => ⟨false, digits, p - part.length⟩
      else none

end Templating.Number
