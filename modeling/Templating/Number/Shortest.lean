/-!
# Shortest decimal digits

The fewest decimal digits that still name one given double. Around a double lies the interval of
the reals that round to it, ends included when the mantissa is even. For one, two, up to seventeen
digits the two neighbours of the double on that decimal grid are tried: the first grid with a
neighbour inside the interval wins, of two neighbours the nearer one, and an exact tie goes by the
given rule.
-/

namespace Templating.Number

/-- Which of two equally near digit strings is taken. -/
inductive TieRule where
  | up
  | even
  deriving Repr, DecidableEq, Inhabited

/-- Decimal digits as a whole number, standing for `digits · 10 ^ exponent`. -/
structure Decimal where
  digits : Nat
  exponent : Int
  deriving Repr, DecidableEq, Inhabited

namespace Shortest

/-- A positive double scaled to whole numbers: the value is `value / unit`, and the reals that
round to it lie between `(value - below) / unit` and `(value + above) / unit`. -/
structure Scaled where
  value : Nat
  below : Nat
  above : Nat
  unit : Nat
  inclusive : Bool

/-- Scale `mantissa · 2 ^ exponent` by four, so that the half steps to its neighbours are whole.
The step below a power of two is half as wide, except at the least exponent. -/
def scale (mantissa : Nat) (exponent : Int) : Scaled :=
  let below := if mantissa = Nat.pow 2 52 ∧ exponent ≠ -1074 then 1 else 2
  let up := (exponent - 2).toNat
  let down := (2 - exponent).toNat
  { value := 4 * mantissa * Nat.pow 2 up
    below := below * Nat.pow 2 up
    above := 2 * Nat.pow 2 up
    unit := Nat.pow 2 down
    inclusive := mantissa % 2 == 0 }

/-- Numerator and denominator of the value in units of `10 ^ exponent`. -/
def inUnits (n unit : Nat) (exponent : Int) : Nat × Nat :=
  match exponent with
  | .ofNat e => (n, unit * Nat.pow 10 e)
  | .negSucc e => (n * Nat.pow 10 (e + 1), unit)

/-- Number of decimal digits before the point, or minus the number of zeros after it: the `k` with
`10 ^ (k - 1) ≤ value / unit < 10 ^ k`. -/
def magnitude (n unit : Nat) : Int :=
  if unit ≤ n then ((toString (n / unit)).length : Int)
  else 1 - (leadingZeros 400 n unit : Int)
where
  /-- How often the value can be multiplied by ten before it reaches one. -/
  leadingZeros : Nat → Nat → Nat → Nat
    | 0, _, _ => 0
    | fuel + 1, n, unit => if unit ≤ n then 0 else leadingZeros fuel (n * 10) unit + 1

/-- The neighbour of the value on the grid `10 ^ exponent` that names the double, if one does. -/
def onGrid (tie : TieRule) (s : Scaled) (exponent : Int) : Option Nat :=
  let (n, unit) := inUnits s.value s.unit exponent
  let (below, _) := inUnits s.below s.unit exponent
  let (above, _) := inUnits s.above s.unit exponent
  let d := n / unit
  let rest := n % unit
  let inside (gap room : Nat) := if s.inclusive then gap ≤ room else gap < room
  let lower := inside rest below
  let upper := inside (unit - rest) above
  if lower && upper then
    if 2 * rest < unit then some d
    else if unit < 2 * rest then some (d + 1)
    else match tie with
      | .up => some (d + 1)
      | .even => some (if d % 2 = 0 then d else d + 1)
  else if lower then some d
  else if upper then some (d + 1)
  else none

/-- Try the grids with `count`, `count + 1`, … digits, `left` of them. -/
def search (tie : TieRule) (s : Scaled) (magnitude : Int) : Nat → Nat → Decimal
  | 0, _ => ⟨0, 0⟩
  | left + 1, count =>
    let exponent := magnitude - (count : Int)
    match onGrid tie s exponent with
    | some d => ⟨d, exponent⟩
    | none => search tie s magnitude left (count + 1)

/-- Drop trailing zeros of the digits. -/
def strip : Nat → Decimal → Decimal
  | 0, d => d
  | fuel + 1, d =>
    if d.digits ≠ 0 ∧ d.digits % 10 = 0 then strip fuel ⟨d.digits / 10, d.exponent + 1⟩ else d

end Shortest

/-- The shortest digits naming the double `mantissa · 2 ^ exponent`. -/
def shortest (tie : TieRule) (mantissa : Nat) (exponent : Int) : Decimal :=
  if mantissa = 0 then ⟨0, 0⟩
  else
    let s := Shortest.scale mantissa exponent
    Shortest.strip 20 (Shortest.search tie s (Shortest.magnitude s.value s.unit) 17 1)

end Templating.Number
